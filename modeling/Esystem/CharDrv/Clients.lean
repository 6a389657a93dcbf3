import Esystem.Core.Family
import Esystem.Core.Machine
import Esystem.CharDrv.Driver

/-!
# Concurrent callers of the character driver

Nothing in char_drv.c serialises `drv_read` and `drv_write`, so the statements
of the calls of several clients interleave.

- `writes_collide`: two writes that both copy before either advances the offset
  store to the same bytes.
- `reads_collide`: two reads that do so deliver the same bytes.
- `safe_of_serialised`: if no write begins while another is in progress, and no
  read begins while another is in progress, then every interleaving is safe; a
  read and a write may overlap.
-/

namespace Esystem.CharDrv

/-- Where a client is: in no call, or before the named statement of one. -/
inductive Pc where
  | idle
  | writeCopy (buf : List UInt8)
  | writeAdvance (buf : List UInt8)
  | readCount (count : SizeT)
  | readCopy (count : SizeT)
  | readAdvance (count : SizeT)

namespace Pc

/-- The client is in `drv_write`. -/
def writing : Pc → Prop
  | writeCopy _ => True
  | writeAdvance _ => True
  | _ => False

/-- The client is in `drv_read`. -/
def reading : Pc → Prop
  | readCount _ => True
  | readCopy _ => True
  | readAdvance _ => True
  | _ => False

instance : DecidablePred writing
  | writeCopy _ => inferInstanceAs (Decidable True)
  | writeAdvance _ => inferInstanceAs (Decidable True)
  | idle => inferInstanceAs (Decidable False)
  | readCount _ => inferInstanceAs (Decidable False)
  | readCopy _ => inferInstanceAs (Decidable False)
  | readAdvance _ => inferInstanceAs (Decidable False)

instance : DecidablePred reading
  | writeCopy _ => inferInstanceAs (Decidable False)
  | writeAdvance _ => inferInstanceAs (Decidable False)
  | idle => inferInstanceAs (Decidable False)
  | readCount _ => inferInstanceAs (Decidable True)
  | readCopy _ => inferInstanceAs (Decidable True)
  | readAdvance _ => inferInstanceAs (Decidable True)

/-- How many bytes behind `drv_write_offset` the client has stored. -/
def stored : Pc → Nat
  | writeAdvance buf => buf.length
  | _ => 0

/-- How many bytes behind `drv_read_offset` the client has taken. -/
def taken : Pc → Nat
  | readAdvance count => count.toNat
  | _ => 0

end Pc

/-- What happens in the calls: call number `call` copies bytes to or from the
cells from `off` on, or returns the count of its write. -/
inductive Entry where
  | stored (call : Nat) (off : Int) (data : List UInt8)
  | delivered (call : Nat) (off : Int) (data : List UInt8)
  | accepted (call : Nat)
  deriving DecidableEq

namespace Entry

/-- The cells of `drv_data` that the entry is about. -/
def cells : Entry → List Int
  | stored _ off data => Memory.span off data.length
  | delivered _ off data => Memory.span off data.length
  | accepted _ => []

/-- Call number `call` wrote cell `k`. -/
def stores (call : Nat) (k : Int) (x : Entry) : Prop :=
  k ∈ x.cells ∧ ∃ off data, x = stored call off data

/-- Cell `k` was delivered to a reader. -/
def delivers (k : Int) (x : Entry) : Prop :=
  k ∈ x.cells ∧ ∃ call off data, x = delivered call off data

end Entry

variable {ι : Type}

/-- The driver and its clients; `call` numbers the call that each client is in,
`calls` is the next number, and `log` is what has happened, newest first. -/
structure Clients (ι : Type) where
  drv : Driver
  pc : ι → Pc
  call : ι → Nat
  calls : Nat
  log : List Entry

/-- A client calls `drv_write` or `drv_read` and tests its guard, or makes the
next statement of the call it is in. -/
inductive ClientEvent (ι : Type) where
  | write (c : ι) (buf : List UInt8)
  | read (c : ι) (count : Nat)
  | step (c : ι)

namespace Clients

/-- The driver after `drv_init`, and clients that call nothing yet. -/
def start (kmalloc : Memory UInt8) : Clients ι where
  drv := drvInit kmalloc
  pc := fun _ => .idle
  call := fun _ => 0
  calls := 0
  log := []

variable [DecidableEq ι]

/-- Client `c` moves to `p`. -/
def goto (s : Clients ι) (c : ι) (p : Pc) : Clients ι :=
  { s with pc := Function.update s.pc c p }

/-- Client `c` begins a call, at `p`. -/
def begin (s : Clients ι) (c : ι) (p : Pc) : Clients ι :=
  { s.goto c p with call := Function.update s.call c s.calls, calls := s.calls + 1 }

/-- One event, with counts that the VFS passes and fault-free copies. -/
def next (s : Clients ι) : ClientEvent ι → Option (Clients ι)
  | .write c buf =>
    match s.pc c with
    | .idle =>
      if buf.length ≤ maxRwCount then
        if s.drv.refuses (BitVec.ofNat 64 buf.length) then some (s.begin c .idle)
        else some (s.begin c (.writeCopy buf))
      else none
    | _ => none
  | .read c count =>
    match s.pc c with
    | .idle =>
      if count ≤ maxRwCount then
        if s.drv.nothingUnread then some (s.begin c .idle)
        else some (s.begin c (.readCount (BitVec.ofNat 64 count)))
      else none
    | _ => none
  | .step c =>
    match s.pc c with
    | .idle => none
    | .writeCopy buf =>
      some { s.goto c (.writeAdvance buf) with
        drv := s.drv.copyFromUser buf 0
        log := .stored (s.call c) s.drv.drvWriteOffset.toInt buf :: s.log }
    | .writeAdvance buf =>
      some { s.goto c .idle with
        drv := s.drv.advanceWrite (BitVec.ofNat 64 buf.length)
        log := .accepted (s.call c) :: s.log }
    | .readCount count => some (s.goto c (.readCopy (s.drv.minCount count)))
    | .readCopy count =>
      some { s.goto c (.readAdvance count) with
        log := .delivered (s.call c) s.drv.drvReadOffset.toInt (s.drv.copyToUser count 0)
          :: s.log }
    | .readAdvance count =>
      some { s.goto c .idle with drv := s.drv.advanceRead count }

/-- What one event does, case by case. -/
inductive Step (s : Clients ι) : ClientEvent ι → Clients ι → Prop where
  | refused {c : ι} {buf : List UInt8} (hc : s.pc c = .idle)
      (h : s.drv.refuses (BitVec.ofNat 64 buf.length)) :
      Step s (.write c buf) (s.begin c .idle)
  | write {c : ι} {buf : List UInt8} (hc : s.pc c = .idle) (hn : buf.length ≤ maxRwCount)
      (h : ¬ s.drv.refuses (BitVec.ofNat 64 buf.length)) :
      Step s (.write c buf) (s.begin c (.writeCopy buf))
  | empty {c : ι} {count : Nat} (hc : s.pc c = .idle) (h : s.drv.nothingUnread) :
      Step s (.read c count) (s.begin c .idle)
  | read {c : ι} {count : Nat} (hc : s.pc c = .idle) (hn : count ≤ maxRwCount)
      (h : ¬ s.drv.nothingUnread) :
      Step s (.read c count) (s.begin c (.readCount (BitVec.ofNat 64 count)))
  | writeCopy {c : ι} {buf : List UInt8} (hc : s.pc c = .writeCopy buf) :
      Step s (.step c) { s.goto c (.writeAdvance buf) with
        drv := s.drv.copyFromUser buf 0
        log := .stored (s.call c) s.drv.drvWriteOffset.toInt buf :: s.log }
  | writeAdvance {c : ι} {buf : List UInt8} (hc : s.pc c = .writeAdvance buf) :
      Step s (.step c) { s.goto c .idle with
        drv := s.drv.advanceWrite (BitVec.ofNat 64 buf.length)
        log := .accepted (s.call c) :: s.log }
  | readCount {c : ι} {count : SizeT} (hc : s.pc c = .readCount count) :
      Step s (.step c) (s.goto c (.readCopy (s.drv.minCount count)))
  | readCopy {c : ι} {count : SizeT} (hc : s.pc c = .readCopy count) :
      Step s (.step c) { s.goto c (.readAdvance count) with
        log := .delivered (s.call c) s.drv.drvReadOffset.toInt (s.drv.copyToUser count 0)
          :: s.log }
  | readAdvance {c : ι} {count : SizeT} (hc : s.pc c = .readAdvance count) :
      Step s (.step c) { s.goto c .idle with drv := s.drv.advanceRead count }

variable {s s' : Clients ι}

theorem step_of_next {e : ClientEvent ι} (h : s.next e = some s') : Step s e s' := by
  cases e with
  | write c buf =>
    simp only [next] at h
    split at h
    · rename_i hc
      split at h
      · rename_i hn
        split at h
        · rename_i hfull
          cases h
          exact .refused hc hfull
        · rename_i hpass
          cases h
          exact .write hc hn hpass
      · cases h
    · cases h
  | read c count =>
    simp only [next] at h
    split at h
    · rename_i hc
      split at h
      · rename_i hn
        split at h
        · rename_i hnone
          cases h
          exact .empty hc hnone
        · rename_i hsome
          cases h
          exact .read hc hn hsome
      · cases h
    · cases h
  | step c =>
    simp only [next] at h
    split at h
    · cases h
    · rename_i hc
      cases h
      exact .writeCopy hc
    · rename_i hc
      cases h
      exact .writeAdvance hc
    · rename_i hc
      cases h
      exact .readCount hc
    · rename_i hc
      cases h
      exact .readCopy hc
    · rename_i hc
      cases h
      exact .readAdvance hc

/-! ## Calls that nobody comes between -/

/-- A write alone is `drv_write`. -/
theorem write_alone {c : ι} {buf : List UInt8} (hc : s.pc c = .idle)
    (hn : buf.length ≤ maxRwCount) :
    ∃ es s', (∀ e ∈ es, e = .step c) ∧ run next s (.write c buf :: es) = some s' ∧
      s'.pc c = .idle ∧ s'.drv = (drvWrite buf 0 s.drv).drv := by
  by_cases hfull : s.drv.refuses (BitVec.ofNat 64 buf.length)
  · have h1 : next s (.write c buf) = some (s.begin c .idle) := by
      simp only [next, hc, if_pos hn, if_pos hfull]
    refine ⟨[], s.begin c .idle, by simp, (run_cons_some h1).mpr rfl,
      Function.update_self _ _ _, ?_⟩
    rw [drvWrite, if_pos hfull]
    rfl
  · let s₁ := s.begin c (.writeCopy buf)
    let s₂ : Clients ι := { s₁.goto c (.writeAdvance buf) with
      drv := s.drv.copyFromUser buf 0
      log := .stored (s₁.call c) s.drv.drvWriteOffset.toInt buf :: s.log }
    let s₃ : Clients ι := { s₂.goto c .idle with
      drv := s₂.drv.advanceWrite (BitVec.ofNat 64 buf.length)
      log := .accepted (s₂.call c) :: s₂.log }
    have hpc₁ : s₁.pc c = .writeCopy buf := Function.update_self _ _ _
    have hpc₂ : s₂.pc c = .writeAdvance buf := Function.update_self _ _ _
    have h1 : next s (.write c buf) = some s₁ := by
      simp only [next, hc, if_pos hn, if_neg hfull, s₁]
    have h2 : next s₁ (.step c) = some s₂ := by
      rw [next, hpc₁]
      rfl
    have h3 : next s₂ (.step c) = some s₃ := by rw [next, hpc₂]
    refine ⟨[.step c, .step c], s₃, by simp, ?_, Function.update_self _ _ _, ?_⟩
    · exact (run_cons_some h1).mpr ((run_cons_some h2).mpr ((run_cons_some h3).mpr rfl))
    · rw [drvWrite, if_neg hfull]

/-- A read alone is `drv_read`. -/
theorem read_alone {c : ι} {count : Nat} (hc : s.pc c = .idle) (hn : count ≤ maxRwCount) :
    ∃ es s', (∀ e ∈ es, e = .step c) ∧ run next s (.read c count :: es) = some s' ∧
      s'.pc c = .idle ∧ s'.drv = (drvRead (BitVec.ofNat 64 count) 0 s.drv).drv := by
  by_cases hnone : s.drv.nothingUnread
  · have h1 : next s (.read c count) = some (s.begin c .idle) := by
      simp only [next, hc, if_pos hn, if_pos hnone]
    refine ⟨[], s.begin c .idle, by simp, (run_cons_some h1).mpr rfl,
      Function.update_self _ _ _, ?_⟩
    rw [drvRead, if_pos hnone]
    rfl
  · let n := s.drv.minCount (BitVec.ofNat 64 count)
    let s₁ := s.begin c (.readCount (BitVec.ofNat 64 count))
    let s₂ := s₁.goto c (.readCopy n)
    let s₃ : Clients ι := { s₂.goto c (.readAdvance n) with
      log := .delivered (s₂.call c) s.drv.drvReadOffset.toInt (s.drv.copyToUser n 0) :: s.log }
    let s₄ : Clients ι := { s₃.goto c .idle with drv := s.drv.advanceRead n }
    have hpc₁ : s₁.pc c = .readCount (BitVec.ofNat 64 count) := Function.update_self _ _ _
    have hpc₂ : s₂.pc c = .readCopy n := Function.update_self _ _ _
    have hpc₃ : s₃.pc c = .readAdvance n := Function.update_self _ _ _
    have h1 : next s (.read c count) = some s₁ := by
      simp only [next, hc, if_pos hn, if_neg hnone, s₁]
    have h2 : next s₁ (.step c) = some s₂ := by
      rw [next, hpc₁]
      rfl
    have h3 : next s₂ (.step c) = some s₃ := by
      rw [next, hpc₂]
      rfl
    have h4 : next s₃ (.step c) = some s₄ := by
      rw [next, hpc₃]
      rfl
    refine ⟨[.step c, .step c, .step c], s₄, by simp, ?_, Function.update_self _ _ _, ?_⟩
    · exact (run_cons_some h1).mpr ((run_cons_some h2).mpr
        ((run_cons_some h3).mpr ((run_cons_some h4).mpr rfl)))
    · rw [drvRead, if_neg hnone]

/-! ## Safety -/

omit [DecidableEq ι] in
/-- What callers rely on: the offsets and all copies are in range, no byte that
an accepted write stored is overwritten before it is read, and no stored byte is
delivered twice. -/
structure Safe (s : Clients ι) : Prop where
  writeOffset : s.drv.drvWriteOffset.toInt ≤ drvMaxLength.toInt - 1
  readOffset : s.drv.drvReadOffset.toInt ≤ s.drv.drvWriteOffset.toInt
  inside : ∀ x ∈ s.log, ∀ k ∈ x.cells, 0 ≤ k ∧ k < drvMaxLength.toInt
  kept : ∀ l₁ l₂ l₃ y x k call call', s.log = l₁ ++ y :: (l₂ ++ x :: l₃) →
    x.stores call k → .accepted call ∈ s.log → y.stores call' k → ∃ z ∈ l₂, z.delivers k
  once : ∀ l₁ l₂ l₃ y x k, s.log = l₁ ++ y :: (l₂ ++ x :: l₃) →
    x.delivers k → y.delivers k → ∃ z ∈ l₂, ∃ call, z.stores call k

/-- No write begins while another is in progress, and no read while another
is. -/
def Serialised (s : Clients ι) : ClientEvent ι → Prop
  | .write _ _ => ∀ d, ¬ (s.pc d).writing
  | .read _ _ => ∀ d, ¬ (s.pc d).reading
  | .step _ => True

omit [DecidableEq ι] in
instance [Fintype ι] (s : Clients ι) : DecidablePred (Serialised s)
  | .write _ _ => inferInstanceAs (Decidable (∀ d, ¬ (s.pc d).writing))
  | .read _ _ => inferInstanceAs (Decidable (∀ d, ¬ (s.pc d).reading))
  | .step _ => inferInstanceAs (Decidable True)

end Clients

/-! ## Serialised writers and serialised readers -/

/-- What a client in a call has made sure of, when the offsets are `r` and `w`. -/
def Pc.Fits (r w : Nat) : Pc → Prop
  | idle => True
  | writeCopy buf => buf.length + w < 4096
  | writeAdvance buf => buf.length + w < 4096
  | readCount count => ∃ n ≤ maxRwCount, count = BitVec.ofNat 64 n
  | readCopy count => ∃ n ≤ w - r, count = BitVec.ofNat 64 n
  | readAdvance count => ∃ n ≤ w - r, count = BitVec.ofNat 64 n

/-- Readers do not mind that `w` grows. -/
theorem Pc.Fits.mono {r w w' : Nat} {p : Pc} (h : p.Fits r w) (hw : w ≤ w')
    (hp : ¬ p.writing) : p.Fits r w' := by
  cases p with
  | idle => trivial
  | writeCopy buf => exact absurd trivial hp
  | writeAdvance buf => exact absurd trivial hp
  | readCount count => exact h
  | readCopy count => exact ⟨h.choose, by have := h.choose_spec.1; omega, h.choose_spec.2⟩
  | readAdvance count => exact ⟨h.choose, by have := h.choose_spec.1; omega, h.choose_spec.2⟩

/-- Writers do not depend on `r`. -/
theorem Pc.Fits.of_not_reading {r r' w : Nat} {p : Pc} (h : p.Fits r w)
    (hp : ¬ p.reading) : p.Fits r' w := by
  cases p with
  | idle => trivial
  | writeCopy buf => exact h
  | writeAdvance buf => exact h
  | readCount count => exact absurd trivial hp
  | readCopy count => exact absurd trivial hp
  | readAdvance count => exact absurd trivial hp

theorem Pc.writing_of_stored {p : Pc} (h : p.stored ≠ 0) : p.writing := by
  cases p with
  | writeAdvance buf => trivial
  | _ => exact absurd rfl h

theorem Pc.reading_of_taken {p : Pc} (h : p.taken ≠ 0) : p.reading := by
  cases p with
  | readAdvance count => trivial
  | _ => exact absurd rfl h

/-- No cell is written by both entries, and none is delivered by both. -/
def Entry.Apart (y x : Entry) : Prop :=
  ∀ k, ((∃ call, y.stores call k) → ∀ call, ¬ x.stores call k) ∧ (y.delivers k → ¬ x.delivers k)

namespace Clients

variable [DecidableEq ι] {s s' : Clients ι} {r w : Nat}

/-- The invariant: one writer and one reader at a time, each within its bounds;
what has been stored lies below `w`, what has been delivered below `r`, except
for the copies just made; and no two copies in the same direction overlap. -/
structure Inv (s : Clients ι) (r w : Nat) : Prop where
  offsets : s.drv.At r w
  oneWriter : ∀ c d, (s.pc c).writing → (s.pc d).writing → c = d
  oneReader : ∀ c d, (s.pc c).reading → (s.pc d).reading → c = d
  fits : ∀ c, (s.pc c).Fits r w
  stored : ∀ x ∈ s.log, ∀ call k, x.stores call k →
    0 ≤ k ∧ (k < w ∨ ∃ c, k < w + (s.pc c).stored)
  delivered : ∀ x ∈ s.log, ∀ k, x.delivers k →
    0 ≤ k ∧ (k < r ∨ ∃ c, k < r + (s.pc c).taken)
  apart : s.log.Pairwise Entry.Apart

omit [DecidableEq ι] in
theorem inv_start (kmalloc : Memory UInt8) : Inv (start kmalloc : Clients ι) 0 0 where
  offsets := Driver.at_drvInit kmalloc
  oneWriter _ _ h := h.elim
  oneReader _ _ h := h.elim
  fits _ := trivial
  stored x hx := by cases hx
  delivered x hx := by cases hx
  apart := List.Pairwise.nil

/-- A front behind an offset only moves up when client `c` moves to `p`. -/
theorem front_update {g : Pc → Nat} {f : ι → Pc} {c : ι} {p : Pc} (hg : g (f c) ≤ g p)
    {k : Int} {n : Nat} (h : k < n ∨ ∃ d, k < n + g (f d)) :
    k < n ∨ ∃ d, k < n + g (Function.update f c p d) := by
  rcases h with h | ⟨d, h⟩
  · exact .inl h
  · right
    refine ⟨d, ?_⟩
    by_cases hd : d = c
    · subst hd
      rw [Function.update_self]
      omega
    · rwa [Function.update_of_ne hd]

/-- A client moves, and neither the offsets nor the log change. -/
theorem Inv.move (h : Inv s r w) {c : ι} {p : Pc} (hpc : s'.pc = Function.update s.pc c p)
    (hdrv : s'.drv.At r w) (hlog : s'.log = s.log)
    (hwriting : p.writing → (s.pc c).writing ∨ ∀ d, ¬ (s.pc d).writing)
    (hreading : p.reading → (s.pc c).reading ∨ ∀ d, ¬ (s.pc d).reading)
    (hfits : p.Fits r w) (hstored : (s.pc c).stored ≤ p.stored)
    (htaken : (s.pc c).taken ≤ p.taken) : Inv s' r w where
  offsets := hdrv
  oneWriter := by
    rw [hpc]
    exact one_update h.oneWriter hwriting
  oneReader := by
    rw [hpc]
    exact one_update h.oneReader hreading
  fits := by
    rw [hpc]
    exact forall_update (P := fun _ => Pc.Fits r w) h.fits hfits
  stored x hx call k hk := by
    rw [hlog] at hx
    rw [hpc]
    exact ⟨(h.stored x hx call k hk).1, front_update hstored (h.stored x hx call k hk).2⟩
  delivered x hx k hk := by
    rw [hlog] at hx
    rw [hpc]
    exact ⟨(h.delivered x hx k hk).1, front_update htaken (h.delivered x hx k hk).2⟩
  apart := hlog ▸ h.apart

omit [DecidableEq ι] in
/-- Something happens that fits what has happened before. -/
theorem Inv.record (h : Inv s r w) {x : Entry}
    (hstored : ∀ call k, x.stores call k → 0 ≤ k ∧ (k < w ∨ ∃ c, k < w + (s.pc c).stored))
    (hdelivered : ∀ k, x.delivers k → 0 ≤ k ∧ (k < r ∨ ∃ c, k < r + (s.pc c).taken))
    (hapart : ∀ y ∈ s.log, x.Apart y) : Inv { s with log := x :: s.log } r w where
  offsets := h.offsets
  oneWriter := h.oneWriter
  oneReader := h.oneReader
  fits := h.fits
  stored := List.forall_mem_cons.mpr ⟨hstored, h.stored⟩
  delivered := List.forall_mem_cons.mpr ⟨hdelivered, h.delivered⟩
  apart := List.pairwise_cons.mpr ⟨hapart, h.apart⟩

omit [DecidableEq ι] in
/-- Unless the writer has just copied, everything stored lies below `w`. -/
theorem Inv.stored_lt (h : Inv s r w) {c : ι} (hc : (s.pc c).writing)
    (h0 : (s.pc c).stored = 0) {x : Entry} (hx : x ∈ s.log) {call : Nat} {k : Int}
    (hk : x.stores call k) : k < w := by
  rcases (h.stored x hx call k hk).2 with hlt | ⟨d, hd⟩
  · exact hlt
  · by_cases hz : (s.pc d).stored = 0
    · omega
    · rw [← h.oneWriter d c (Pc.writing_of_stored hz) hc] at h0
      exact absurd h0 hz

omit [DecidableEq ι] in
/-- Unless the reader has just copied, everything delivered lies below `r`. -/
theorem Inv.delivered_lt (h : Inv s r w) {c : ι} (hc : (s.pc c).reading)
    (h0 : (s.pc c).taken = 0) {x : Entry} (hx : x ∈ s.log) {k : Int}
    (hk : x.delivers k) : k < r := by
  rcases (h.delivered x hx k hk).2 with hlt | ⟨d, hd⟩
  · exact hlt
  · by_cases hz : (s.pc d).taken = 0
    · omega
    · rw [← h.oneReader d c (Pc.reading_of_taken hz) hc] at h0
      exact absurd h0 hz

/-- The writer copies behind everything stored so far. -/
theorem Inv.writeCopy (h : Inv s r w) {c : ι} {buf : List UInt8}
    (hc : s.pc c = .writeCopy buf) :
    Inv { s.goto c (.writeAdvance buf) with
      drv := s.drv.copyFromUser buf 0
      log := .stored (s.call c) s.drv.drvWriteOffset.toInt buf :: s.log } r w := by
  have hfits := h.fits c
  rw [hc] at hfits
  have hmoved : Inv { s.goto c (.writeAdvance buf) with
      drv := s.drv.copyFromUser buf 0 } r w :=
    h.move (c := c) rfl ⟨h.offsets.read, h.offsets.write, h.offsets.le, h.offsets.lt⟩ rfl
      (fun _ => .inl (by rw [hc]; trivial)) (fun hr => hr.elim) hfits
      (by rw [hc]; exact Nat.zero_le _) (by rw [hc]; exact Nat.le_refl 0)
  have hspan : ∀ k ∈ Memory.span s.drv.drvWriteOffset.toInt buf.length,
      (w : Int) ≤ k ∧ k < w + buf.length := by
    intro k hk
    rwa [h.offsets.writeOffset, Memory.mem_span] at hk
  refine hmoved.record ?_ ?_ ?_
  · rintro call k ⟨hk, -⟩
    have hk' := hspan k hk
    refine ⟨by omega, .inr ⟨c, ?_⟩⟩
    show k < w + (Function.update s.pc c (.writeAdvance buf) c).stored
    rw [Function.update_self]
    exact hk'.2
  · rintro k ⟨-, call, off, data, hx⟩
    cases hx
  · intro y hy k
    constructor
    · rintro ⟨call, hk, -⟩ call' hy'
      have hlt := h.stored_lt (c := c) (by rw [hc]; trivial) (by rw [hc]; rfl) hy hy'
      have hk' := hspan k hk
      omega
    · rintro ⟨-, call, off, data, hx⟩
      cases hx

/-- The reader takes what lies behind everything delivered so far. -/
theorem Inv.readCopy (h : Inv s r w) {c : ι} {count : SizeT}
    (hc : s.pc c = .readCopy count) :
    Inv { s.goto c (.readAdvance count) with
      log := .delivered (s.call c) s.drv.drvReadOffset.toInt (s.drv.copyToUser count 0)
        :: s.log } r w := by
  have hfits := h.fits c
  rw [hc] at hfits
  have hmoved : Inv (s.goto c (.readAdvance count)) r w :=
    h.move (c := c) rfl h.offsets rfl (fun hw => hw.elim)
      (fun _ => .inl (by rw [hc]; trivial)) hfits
      (by rw [hc]; exact Nat.le_refl 0) (by rw [hc]; exact Nat.zero_le _)
  have hspan : ∀ k ∈ Memory.span s.drv.drvReadOffset.toInt (s.drv.copyToUser count 0).length,
      (r : Int) ≤ k ∧ k < r + count.toNat := by
    intro k hk
    rwa [h.offsets.readOffset, Driver.copyToUser, Memory.length_load, Nat.sub_zero,
      Memory.mem_span] at hk
  refine hmoved.record ?_ ?_ ?_
  · rintro call k ⟨-, off, data, hx⟩
    cases hx
  · rintro k ⟨hk, -⟩
    have hk' := hspan k hk
    refine ⟨by omega, .inr ⟨c, ?_⟩⟩
    show k < r + (Function.update s.pc c (.readAdvance count) c).taken
    rw [Function.update_self]
    exact hk'.2
  · intro y hy k
    constructor
    · rintro ⟨call, -, off, data, hx⟩
      cases hx
    · rintro ⟨hk, -⟩ hy'
      have hlt := h.delivered_lt (c := c) (by rw [hc]; trivial) (by rw [hc]; rfl) hy hy'
      have hk' := hspan k hk
      omega

/-- The writer advances the offset over what it has stored. -/
theorem Inv.writeAdvance (h : Inv s r w) {c : ι} {buf : List UInt8}
    (hc : s.pc c = .writeAdvance buf) :
    Inv { s.goto c .idle with drv := s.drv.advanceWrite (BitVec.ofNat 64 buf.length) }
      r (w + buf.length) where
  offsets := by
    have hfits := h.fits c
    rw [hc] at hfits
    exact h.offsets.advanceWrite hfits
  oneWriter := one_update h.oneWriter fun hw => hw.elim
  oneReader := one_update h.oneReader fun hr => hr.elim
  fits := (Function.forall_update_iff s.pc (fun _ p => p.Fits r (w + buf.length))).mpr
    ⟨trivial, fun d hd => (h.fits d).mono (Nat.le_add_right _ _) fun hw =>
      hd (h.oneWriter d c hw (by rw [hc]; trivial))⟩
  stored x hx call k hk := by
    obtain ⟨hnonneg, hfront⟩ := h.stored x hx call k hk
    refine ⟨hnonneg, .inl ?_⟩
    rcases hfront with hlt | ⟨d, hd⟩
    · omega
    · by_cases hz : (s.pc d).stored = 0
      · omega
      · have hdc := h.oneWriter d c (Pc.writing_of_stored hz) (by rw [hc]; trivial)
        rw [hdc, hc] at hd
        exact hd
  delivered x hx k hk := ⟨(h.delivered x hx k hk).1,
    front_update (by rw [hc]; exact Nat.le_refl 0) (h.delivered x hx k hk).2⟩
  apart := h.apart

/-- The reader advances the offset over what it has taken. -/
theorem Inv.readAdvance (h : Inv s r w) {c : ι} {n : Nat} (hn : n ≤ w - r)
    (hc : s.pc c = .readAdvance (BitVec.ofNat 64 n)) :
    Inv { s.goto c .idle with drv := s.drv.advanceRead (BitVec.ofNat 64 n) } (r + n) w where
  offsets := h.offsets.advanceRead hn
  oneWriter := one_update h.oneWriter fun hw => hw.elim
  oneReader := one_update h.oneReader fun hr => hr.elim
  fits := (Function.forall_update_iff s.pc (fun _ p => p.Fits (r + n) w)).mpr
    ⟨trivial, fun d hd => (h.fits d).of_not_reading fun hr =>
      hd (h.oneReader d c hr (by rw [hc]; trivial))⟩
  stored x hx call k hk := ⟨(h.stored x hx call k hk).1,
    front_update (by rw [hc]; exact Nat.le_refl 0) (h.stored x hx call k hk).2⟩
  delivered x hx k hk := by
    obtain ⟨hnonneg, hfront⟩ := h.delivered x hx k hk
    refine ⟨hnonneg, .inl ?_⟩
    rcases hfront with hlt | ⟨d, hd⟩
    · omega
    · by_cases hz : (s.pc d).taken = 0
      · omega
      · have hdc := h.oneReader d c (Pc.reading_of_taken hz) (by rw [hc]; trivial)
        have hlt := h.offsets.lt
        rw [hdc, hc, Pc.taken, toNat_ofNat_size (by omega)] at hd
        omega
  apart := h.apart

/-- Every event of a serialised run keeps the invariant, for offsets of its own. -/
theorem inv_step (h : Inv s r w) {e : ClientEvent ι} (he : Serialised s e)
    (hs : s.next e = some s') : ∃ r' w', Inv s' r' w' := by
  cases step_of_next hs with
  | @refused c buf hc hfull =>
    exact ⟨r, w, h.move (c := c) rfl h.offsets rfl (fun hw => hw.elim) (fun hr => hr.elim)
      trivial (by rw [hc]) (by rw [hc])⟩
  | @empty c count hc hnone =>
    exact ⟨r, w, h.move (c := c) rfl h.offsets rfl (fun hw => hw.elim) (fun hr => hr.elim)
      trivial (by rw [hc]) (by rw [hc])⟩
  | @write c buf hc hn hpass =>
    have hfits : buf.length + w < 4096 := by
      rw [h.offsets.refuses_iff hn] at hpass
      omega
    exact ⟨r, w, h.move (c := c) rfl h.offsets rfl (fun _ => .inr he) (fun hr => hr.elim)
      hfits (by rw [hc]; exact Nat.le_refl 0) (by rw [hc]; exact Nat.le_refl 0)⟩
  | @read c count hc hn hsome =>
    exact ⟨r, w, h.move (c := c) rfl h.offsets rfl (fun hw => hw.elim) (fun _ => .inr he)
      ⟨count, hn, rfl⟩ (by rw [hc]; exact Nat.le_refl 0) (by rw [hc]; exact Nat.le_refl 0)⟩
  | writeCopy hc => exact ⟨r, w, h.writeCopy hc⟩
  | @writeAdvance c buf hc =>
    refine ⟨r, w + buf.length, (h.writeAdvance hc).record ?_ ?_ ?_⟩
    · rintro call k ⟨hk, -⟩
      cases hk
    · rintro k ⟨hk, -⟩
      cases hk
    · intro y hy k
      exact ⟨fun ⟨call, hk, _⟩ => (by cases hk), fun ⟨hk, _⟩ => (by cases hk)⟩
  | @readCount c count hc =>
    have hfits := h.fits c
    rw [hc] at hfits
    obtain ⟨n, hn, rfl⟩ := hfits
    rw [h.offsets.minCount_eq hn]
    exact ⟨r, w, h.move (c := c) rfl h.offsets rfl (fun hw => hw.elim)
      (fun _ => .inl (by rw [hc]; trivial)) ⟨min n (w - r), Nat.min_le_right _ _, rfl⟩
      (by rw [hc]; exact Nat.le_refl 0) (by rw [hc]; exact Nat.le_refl 0)⟩
  | readCopy hc => exact ⟨r, w, h.readCopy hc⟩
  | @readAdvance c count hc =>
    have hfits := h.fits c
    rw [hc] at hfits
    obtain ⟨n, hn, rfl⟩ := hfits
    exact ⟨r + n, w, h.readAdvance hn hc⟩

omit [DecidableEq ι] in
/-- The invariant is safe. -/
theorem Inv.safe (h : Inv s r w) : Safe s := by
  have hle := h.offsets.le
  have hlt := h.offsets.lt
  have hmax : drvMaxLength.toInt = 4096 := rfl
  -- copies in one direction never overlap
  have hapart : ∀ {l₁ l₂ l₃ y x}, s.log = l₁ ++ y :: (l₂ ++ x :: l₃) → Entry.Apart y x := by
    intro l₁ l₂ l₃ y x hlog
    have hpair := h.apart
    rw [hlog] at hpair
    exact List.rel_of_pairwise_cons (List.pairwise_append.mp hpair).2.1
      (List.mem_append_right _ List.mem_cons_self)
  refine ⟨?_, ?_, ?_, ?_, ?_⟩
  · rw [h.offsets.writeOffset, hmax]
    omega
  · rw [h.offsets.writeOffset, h.offsets.readOffset]
    exact Int.ofNat_le.mpr hle
  · intro x hx k hk
    rw [hmax]
    match x, hx, hk with
    | .stored call off data, hx, hk =>
      obtain ⟨hnonneg, hfront⟩ := h.stored _ hx call k ⟨hk, off, data, rfl⟩
      refine ⟨hnonneg, ?_⟩
      rcases hfront with hk' | ⟨d, hd⟩
      · omega
      · have hfits := h.fits d
        cases hp : s.pc d with
        | writeAdvance buf =>
          rw [hp] at hfits hd
          have hfits : buf.length + w < 4096 := hfits
          have hd : k < w + buf.length := hd
          omega
        | _ =>
          rw [hp] at hd
          have hd : k < w + ((0 : Nat) : Int) := hd
          omega
    | .delivered call off data, hx, hk =>
      obtain ⟨hnonneg, hfront⟩ := h.delivered _ hx k ⟨hk, call, off, data, rfl⟩
      refine ⟨hnonneg, ?_⟩
      rcases hfront with hk' | ⟨d, hd⟩
      · omega
      · have hfits := h.fits d
        cases hp : s.pc d with
        | readAdvance count =>
          rw [hp] at hfits hd
          obtain ⟨n, hn, rfl⟩ := hfits
          rw [Pc.taken, toNat_ofNat_size (by omega)] at hd
          omega
        | _ =>
          rw [hp] at hd
          have hd : k < r + ((0 : Nat) : Int) := hd
          omega
  · intro l₁ l₂ l₃ y x k call call' hlog hx _ hy
    exact absurd hx (((hapart hlog) k).1 ⟨call', hy⟩ call)
  · intro l₁ l₂ l₃ y x k hlog hx hy
    exact absurd hx (((hapart hlog) k).2 hy)

/-- **Concurrent callers are safe when writes do not overlap each other and
reads do not overlap each other.** -/
theorem safe_of_serialised (kmalloc : Memory UInt8) (es : List (ClientEvent ι))
    (s : Clients ι) (hC : StepsMeet next Serialised (start kmalloc) es)
    (hr : run next (start kmalloc) es = some s) : Safe s := by
  obtain ⟨r, w, h⟩ := run_inv_where (I := fun s => ∃ r w, Inv s r w)
    (fun ⟨_, _, h⟩ he hs => inv_step h he hs) ⟨0, 0, inv_start kmalloc⟩ hC hr
  exact h.safe

/-- A write, then a read and another write that overlap. -/
def overlappingRun : List (ClientEvent (Fin 2)) :=
  [.write 0 [1], .step 0, .step 0, .read 1 1, .step 1, .write 0 [2], .step 0, .step 1,
    .step 0, .step 1]

/-- `overlappingRun` is safe. -/
theorem overlappingRun_safe :
    ∃ s, run next (start fun _ => 0) overlappingRun = some s ∧ Safe s := by
  obtain ⟨s, hs, -⟩ := exists_run_of_any next (start fun _ => 0) overlappingRun (fun _ => true)
    (by decide)
  exact ⟨s, hs, safe_of_serialised (fun _ => 0) overlappingRun s (by decide) hs⟩

/-- Two clients write a byte each, and both copy before either advances. -/
def collidingRun : List (ClientEvent (Fin 2)) :=
  [.write 0 [1], .write 1 [2], .step 0, .step 1, .step 0, .step 1]

/-- After `collidingRun` both writes are accepted, at the same cell. -/
theorem writes_collide :
    ∃ s, run next (start fun _ => 0) collidingRun = some s ∧
      s.log = [.accepted 1, .accepted 0, .stored 1 0 [2], .stored 0 0 [1]] ∧ ¬ Safe s := by
  obtain ⟨s, hs, hp⟩ := exists_run_of_any next (start fun _ => 0) collidingRun
    (fun s => decide (s.log = [.accepted 1, .accepted 0, .stored 1 0 [2], .stored 0 0 [1]]))
    (by decide)
  have hlog := of_decide_eq_true hp
  refine ⟨s, hs, hlog, fun h => ?_⟩
  obtain ⟨z, hz, -⟩ := h.kept [.accepted 1, .accepted 0] [] [] (.stored 1 0 [2]) (.stored 0 0 [1])
    0 0 1 hlog ⟨by decide, 0, [1], rfl⟩ (by rw [hlog]; decide) ⟨by decide, 0, [2], rfl⟩
  cases hz

/-- A byte is written; two clients read it, and both copy before either advances. -/
def collidingReads : List (ClientEvent (Fin 2)) :=
  [.write 0 [1], .step 0, .step 0, .read 0 1, .read 1 1, .step 0, .step 1, .step 0, .step 1,
    .step 0, .step 1]

/-- After `collidingReads` both clients have the one byte that was written. -/
theorem reads_collide :
    ∃ s, run next (start fun _ => 0) collidingReads = some s ∧
      s.log = [.delivered 2 0 [1], .delivered 1 0 [1], .accepted 0, .stored 0 0 [1]] ∧
      ¬ Safe s := by
  obtain ⟨s, hs, hp⟩ := exists_run_of_any next (start fun _ => 0) collidingReads
    (fun s => decide
      (s.log = [.delivered 2 0 [1], .delivered 1 0 [1], .accepted 0, .stored 0 0 [1]]))
    (by decide)
  have hlog := of_decide_eq_true hp
  refine ⟨s, hs, hlog, fun h => ?_⟩
  obtain ⟨z, hz, -⟩ := h.once [] [] [.accepted 0, .stored 0 0 [1]] (.delivered 2 0 [1])
    (.delivered 1 0 [1]) 0 hlog ⟨by decide, 1, 0, [1], rfl⟩ ⟨by decide, 2, 0, [1], rfl⟩
  cases hz

end Clients

end Esystem.CharDrv
