import Mathlib.Algebra.BigOperators.Group.Finset.Piecewise
import Mathlib.Algebra.Order.BigOperators.Group.Finset
import Esystem.CharDrv.Clients
import Esystem.CharDrv.Fifo

/-!
# The users of the character driver

char_user.c writes the alphabet to the driver, reads as many bytes back and
prints them. Any number of such processes can share one driver, and the statements
of their calls interleave; `open` may fail, and the program then goes on with a bad
file descriptor.

- `Held`: as all clients write the same 26 bytes and read 26, the driver holds
  alphabets, one after the other, and each copy is one of them. This takes that no
  two writes overlap and no two reads do.
- `users_print`: then every line printed is the alphabet or the 26 letters `A` that
  the buffer held before, and the driver, which takes bytes only while its buffer
  has room and never frees any, serves exactly the first 157 reads.
- `overlapping_users`: nothing in the driver keeps two writes apart, and a process
  can print what the memory held before.
-/

namespace Esystem.CharDrv.Users

/-- `#define MAX_BUFFER 26`. -/
def maxBuffer : Nat := 26

/-- `buf_in` before the read: `AAA...`. -/
def blank : List UInt8 := List.replicate maxBuffer 65

/-- A line of the output. -/
inductive Line where
  | openFailed
  | buffer (bytes : List UInt8)
  deriving DecidableEq

/-- What `main` does next; `fd` says whether `open` succeeded. `inWrite` and `inRead`
are inside a call on the device. -/
inductive Pc where
  | toOpen
  | toWrite (fd : Bool)
  | inWrite
  | toRead (fd : Bool)
  | inRead
  | toPrint (fd : Bool)
  | done (fd : Bool)
  deriving DecidableEq

/-- A process. -/
structure Proc where
  pc : Pc
  bufIn : List UInt8
  stdout : List Line
  deriving DecidableEq

/-- A process that starts, its buffer zeroed. -/
def Proc.start : Proc := ⟨.toOpen, List.replicate maxBuffer 0, []⟩

/-- What a process prints before the calls. -/
def heading (fd : Bool) : List Line :=
  (if fd then [] else [.openFailed]) ++ [.buffer blank]

variable {ι : Type}

/-- The driver with the calls that the processes are in, and the processes. -/
structure State (ι : Type) where
  clients : Clients ι
  proc : ι → Proc

/-- A process opens the device, which may fail, or makes its next step. -/
inductive Event (ι : Type) where
  | opens (t : ι) (ok : Bool)
  | step (t : ι)

/-- The driver after `drv_init`, and processes that start. -/
def start (kmalloc : Memory UInt8) : State ι := ⟨Clients.start kmalloc, fun _ => Proc.start⟩

/-- `buf_in` of process `t` after the next statement of the read it is in. -/
def State.received (s : State ι) (t : ι) : List UInt8 :=
  match s.clients.pc t with
  | .readCopy count =>
    let data := s.clients.drv.copyToUser count 0
    data ++ (s.proc t).bufIn.drop data.length
  | _ => (s.proc t).bufIn

variable [DecidableEq ι]

/-- Process `t` becomes `p`. -/
def State.put (s : State ι) (t : ι) (p : Proc) : State ι :=
  { s with proc := Function.update s.proc t p }

/-- Process `t`, which becomes `p`, makes a call on the device or the next statement of
the one it is in. Afterwards it is `inside`, or `behind` the call if this returns. -/
def State.call (s : State ι) (t : ι) (e : ClientEvent ι) (p : Proc) (inside behind : Pc) :
    Option (State ι) :=
  (s.clients.next e).map fun clients =>
    ⟨clients, Function.update s.proc t
      { p with pc := match clients.pc t with
        | .idle => behind
        | _ => inside }⟩

/-- One step of `main`. Calls on a bad file descriptor do nothing. -/
def next (s : State ι) : Event ι → Option (State ι)
  | .opens t ok =>
    match (s.proc t).pc with
    | .toOpen => some (s.put t ⟨.toWrite ok, blank, heading ok⟩)
    | _ => none
  | .step t =>
    let p := s.proc t
    match p.pc with
    | .toOpen => none
    | .toWrite true => s.call t (.write t bufOut) p .inWrite (.toRead true)
    | .toWrite false => some (s.put t { p with pc := .toRead false })
    | .inWrite => s.call t (.step t) p .inWrite (.toRead true)
    | .toRead true => s.call t (.read t maxBuffer) p .inRead (.toPrint true)
    | .toRead false => some (s.put t { p with pc := .toPrint false })
    | .inRead => s.call t (.step t) { p with bufIn := s.received t } .inRead (.toPrint true)
    | .toPrint fd =>
      some (s.put t { p with pc := .done fd, stdout := p.stdout ++ [.buffer p.bufIn] })
    | .done _ => none

omit [DecidableEq ι] in
/-- No process calls `write` while another one is in it, nor `read`. -/
def Serialised (s : State ι) : Event ι → Prop
  | .opens _ _ => True
  | .step t =>
    ((s.proc t).pc = .toWrite true → s.clients.Serialised (.write t bufOut)) ∧
      ((s.proc t).pc = .toRead true → s.clients.Serialised (.read t maxBuffer))

omit [DecidableEq ι] in
instance [Fintype ι] (s : State ι) : DecidablePred (Serialised s)
  | .opens _ _ => inferInstanceAs (Decidable True)
  | .step _ => inferInstanceAs (Decidable ((_ → _) ∧ (_ → _)))

/-! ## Alphabets in the driver -/

/-- `n` alphabets, one after the other. -/
def alphabets (n : Nat) : List UInt8 := (List.replicate n bufOut).flatten

theorem length_bufOut : bufOut.length = 26 := rfl

theorem length_alphabets (n : Nat) : (alphabets n).length = 26 * n := by
  simp [alphabets, length_bufOut, Nat.mul_comm]

theorem alphabets_succ (n : Nat) : alphabets (n + 1) = alphabets n ++ bufOut := by
  rw [alphabets, List.replicate_succ', List.flatten_append]
  simp [alphabets]

theorem alphabets_add (m n : Nat) : alphabets (m + n) = alphabets m ++ alphabets n := by
  rw [alphabets, List.replicate_add, List.flatten_append]
  rfl

/-- The alphabets that the driver takes. -/
def room : Nat := 157

/-- The `k`-th alphabet is taken if there is room for it. -/
theorem fits_iff (k : Nat) : bufOut.length + 26 * k < 4096 ↔ k < room := by
  rw [length_bufOut, room]
  omega

/-- `w` alphabets have been written and `r` read, by one writer and one reader at a
time; a writer has room, and a reader something to read. -/
structure Held (s : Clients ι) (w r : Nat) : Prop where
  offsets : s.drv.At (26 * r) (26 * w)
  data : s.drv.drvData.load 0 (26 * w) = alphabets w
  copied : ∀ c, s.pc c = .writeAdvance bufOut → s.drv.drvData.load (26 * w : Nat) 26 = bufOut
  oneWriter : ∀ c d, (s.pc c).writing → (s.pc d).writing → c = d
  oneReader : ∀ c d, (s.pc c).reading → (s.pc d).reading → c = d
  fits : ∀ c, (s.pc c).writing → w < room
  unread : ∀ c, (s.pc c).reading → r < w

section Held

variable {s s' : Clients ι} {w r : Nat} {c : ι}

omit [DecidableEq ι] in
theorem held_start (kmalloc : Memory UInt8) : Held (Clients.start kmalloc : Clients ι) 0 0 where
  offsets := Driver.at_drvInit kmalloc
  data := rfl
  copied _ h := by cases h
  oneWriter _ _ h := h.elim
  oneReader _ _ h := h.elim
  fits _ h := h.elim
  unread _ h := h.elim

/-- A client moves, and the driver stays as it is. -/
theorem Held.move (h : Held s w r) {p : CharDrv.Pc} (hpc : s'.pc = Function.update s.pc c p)
    (hdrv : s'.drv = s.drv) (hp : p ≠ .writeAdvance bufOut)
    (hwriting : p.writing → (s.pc c).writing ∨ (∀ d, ¬ (s.pc d).writing) ∧ w < room)
    (hreading : p.reading → (s.pc c).reading ∨ (∀ d, ¬ (s.pc d).reading) ∧ r < w) :
    Held s' w r where
  offsets := hdrv ▸ h.offsets
  data := hdrv ▸ h.data
  copied d hd := by
    rw [hpc] at hd
    rw [hdrv]
    by_cases hdc : d = c
    · subst hdc
      rw [Function.update_self] at hd
      exact absurd hd hp
    · rw [Function.update_of_ne hdc] at hd
      exact h.copied d hd
  oneWriter := by
    rw [hpc]
    exact one_update h.oneWriter fun hw => (hwriting hw).imp_right And.left
  oneReader := by
    rw [hpc]
    exact one_update h.oneReader fun hr => (hreading hr).imp_right And.left
  fits := by
    rw [hpc]
    exact forall_update (P := fun _ (p : CharDrv.Pc) => p.writing → w < room) h.fits fun hw =>
      (hwriting hw).elim (h.fits c) And.right
  unread := by
    rw [hpc]
    exact forall_update (P := fun _ (p : CharDrv.Pc) => p.reading → r < w) h.unread fun hr =>
      (hreading hr).elim (h.unread c) And.right

/-- The writer stores the alphabet behind the others. -/
theorem Held.writeCopy (h : Held s w r) (hc : s.pc c = .writeCopy bufOut)
    (hpc : s'.pc = Function.update s.pc c (.writeAdvance bufOut))
    (hdrv : s'.drv = s.drv.copyFromUser bufOut 0) : Held s' w r := by
  have hdata : s'.drv.drvData = s.drv.drvData.store (26 * w : Nat) bufOut := by
    rw [hdrv, copyFromUser_zero, ← h.offsets.writeOffset]
  have hwriting : (s.pc c).writing := by
    rw [hc]
    trivial
  exact {
    offsets := by
      rw [hdrv]
      exact ⟨h.offsets.read, h.offsets.write, h.offsets.le, h.offsets.lt⟩
    data := by
      rw [hdata, Memory.load_store_of_le _ _ (by omega), h.data]
    copied := fun d _ => by
      rw [hdata]
      exact Memory.load_store _ _ bufOut
    oneWriter := by
      rw [hpc]
      exact one_update h.oneWriter fun _ => .inl hwriting
    oneReader := by
      rw [hpc]
      exact one_update h.oneReader fun hr => hr.elim
    fits := fun _ _ => h.fits c hwriting
    unread := by
      rw [hpc]
      exact forall_update (P := fun _ (p : CharDrv.Pc) => p.reading → r < w) h.unread
        fun hr => hr.elim }

/-- The writer advances the offset over the alphabet it has stored. -/
theorem Held.writeAdvance (h : Held s w r) (hc : s.pc c = .writeAdvance bufOut)
    (hpc : s'.pc = Function.update s.pc c .idle)
    (hdrv : s'.drv = s.drv.advanceWrite (BitVec.ofNat 64 bufOut.length)) :
    Held s' (w + 1) r := by
  have hwriting : (s.pc c).writing := by
    rw [hc]
    trivial
  have hnone : ∀ d, ¬ (s'.pc d).writing := by
    intro d hd
    rw [hpc] at hd
    by_cases hdc : d = c
    · subst hdc
      rw [Function.update_self] at hd
      exact hd
    · rw [Function.update_of_ne hdc] at hd
      exact hdc (h.oneWriter d c hd hwriting)
  exact {
    offsets := by
      rw [hdrv]
      exact h.offsets.advanceWrite ((fits_iff w).mpr (h.fits c hwriting))
    data := by
      have hcopied := h.copied c hc
      rw [hdrv, Nat.mul_succ, Memory.load_add, Int.zero_add]
      exact (congrArg₂ (· ++ ·) h.data hcopied).trans (alphabets_succ w).symm
    copied := fun d hd => absurd (show (s'.pc d).writing by rw [hd]; trivial) (hnone d)
    oneWriter := fun d _ hd => absurd hd (hnone d)
    oneReader := by
      rw [hpc]
      exact one_update h.oneReader fun hr => hr.elim
    fits := fun d hd => absurd hd (hnone d)
    unread := by
      rw [hpc]
      exact forall_update (P := fun _ (p : CharDrv.Pc) => p.reading → r < w + 1)
        (fun d hd => Nat.lt_succ_of_lt (h.unread d hd)) fun hr => hr.elim }

/-- The reader advances the offset over the alphabet it has copied. -/
theorem Held.readAdvance (h : Held s w r) (hc : s.pc c = .readAdvance (BitVec.ofNat 64 maxBuffer))
    (hpc : s'.pc = Function.update s.pc c .idle)
    (hdrv : s'.drv = s.drv.advanceRead (BitVec.ofNat 64 maxBuffer)) : Held s' w (r + 1) := by
  have hreading : (s.pc c).reading := by
    rw [hc]
    trivial
  have hlt := h.unread c hreading
  have hnone : ∀ d, ¬ (s'.pc d).reading := by
    intro d hd
    rw [hpc] at hd
    by_cases hdc : d = c
    · subst hdc
      rw [Function.update_self] at hd
      exact hd
    · rw [Function.update_of_ne hdc] at hd
      exact hdc (h.oneReader d c hd hreading)
  exact {
    offsets := by
      rw [hdrv]
      exact h.offsets.advanceRead (n := maxBuffer) (by rw [maxBuffer]; omega)
    data := by
      rw [hdrv]
      exact h.data
    copied := fun d hd => by
      rw [hpc] at hd
      rw [hdrv]
      by_cases hdc : d = c
      · subst hdc
        rw [Function.update_self] at hd
        cases hd
      · rw [Function.update_of_ne hdc] at hd
        exact h.copied d hd
    oneWriter := by
      rw [hpc]
      exact one_update h.oneWriter fun hw => hw.elim
    oneReader := fun d _ hd => absurd hd (hnone d)
    fits := by
      rw [hpc]
      exact forall_update (P := fun _ (p : CharDrv.Pc) => p.writing → w < room) h.fits
        fun hw => hw.elim
    unread := fun d hd => absurd hd (hnone d) }

omit [DecidableEq ι] in
/-- The guard of `drv_write`. -/
theorem Held.refuses_iff (h : Held s w r) :
    s.drv.refuses (BitVec.ofNat 64 bufOut.length) ↔ room ≤ w := by
  rw [h.offsets.refuses_iff (by decide), ← Nat.not_lt, fits_iff, Nat.not_lt]

omit [DecidableEq ι] in
/-- The guard of `drv_read`. -/
theorem Held.nothingUnread_iff (h : Held s w r) : s.drv.nothingUnread ↔ w = r := by
  rw [h.offsets.nothingUnread_iff]
  omega

omit [DecidableEq ι] in
/-- A reader with something to read takes an alphabet. -/
theorem Held.minCount (h : Held s w r) (hlt : r < w) :
    s.drv.minCount (BitVec.ofNat 64 maxBuffer) = BitVec.ofNat 64 maxBuffer := by
  rw [h.offsets.minCount_eq (by decide), Nat.min_eq_left (by rw [maxBuffer]; omega)]

omit [DecidableEq ι] in
/-- A reader with something to read copies an alphabet. -/
theorem Held.copyToUser (h : Held s w r) (hlt : r < w) :
    s.drv.copyToUser (BitVec.ofNat 64 maxBuffer) 0 = bufOut := by
  have hsplit : 26 * w = 26 * r + (26 + 26 * (w - (r + 1))) := by omega
  have hw : w = r + (1 + (w - (r + 1))) := by omega
  have hdata := h.data
  rw [hsplit, Memory.load_add, Memory.load_add, hw, alphabets_add, alphabets_add] at hdata
  have hrest := List.append_inj_right hdata (by rw [Memory.length_load, length_alphabets])
  have hone := List.append_inj_left hrest (Memory.length_load _ _ _)
  rw [Driver.copyToUser, h.offsets.readOffset]
  rw [Int.zero_add] at hone
  exact hone.trans (List.append_nil bufOut)

end Held

/-- Where a call leaves its process. -/
theorem call_cases {s s' : State ι} {t : ι} {e : ClientEvent ι} {p : Proc} {inside behind : Pc}
    (hs : s.call t e p inside behind = some s') :
    ∃ clients, Clients.Step s.clients e clients ∧ s' = ⟨clients, Function.update s.proc t
      { p with pc := match clients.pc t with
        | .idle => behind
        | _ => inside }⟩ := by
  obtain ⟨clients, hclients, rfl⟩ := Option.map_eq_some_iff.mp hs
  exact ⟨clients, Clients.step_of_next hclients, rfl⟩

/-! ## What the processes have done -/

/-- The process has called `write` on the device, and the call has returned. -/
def Proc.wrote (p : Proc) : Nat :=
  match p.pc with
  | .toRead true => 1
  | .inRead => 1
  | .toPrint true => 1
  | .done true => 1
  | _ => 0

/-- The process has called `read` on the device, and the call has returned. -/
def Proc.hasRead (p : Proc) : Nat :=
  match p.pc with
  | .toPrint true => 1
  | .done true => 1
  | _ => 0

/-- The call brought the alphabet. -/
def Proc.served (p : Proc) : Nat :=
  if p.bufIn = bufOut then p.hasRead else 0

/-- What a process can have in its buffer and on its output, and where in a call it can
be. -/
def Proc.Ok (p : Proc) (c : CharDrv.Pc) : Prop :=
  match p.pc with
  | .toOpen => p = Proc.start ∧ c = .idle
  | .toWrite fd => p = ⟨.toWrite fd, blank, heading fd⟩ ∧ c = .idle
  | .inWrite =>
    p = ⟨.inWrite, blank, heading true⟩ ∧ (c = .writeCopy bufOut ∨ c = .writeAdvance bufOut)
  | .toRead fd => p = ⟨.toRead fd, blank, heading fd⟩ ∧ c = .idle
  | .inRead =>
    p = ⟨.inRead, blank, heading true⟩ ∧
        (c = .readCount (BitVec.ofNat 64 maxBuffer) ∨ c = .readCopy (BitVec.ofNat 64 maxBuffer)) ∨
      p = ⟨.inRead, bufOut, heading true⟩ ∧ c = .readAdvance (BitVec.ofNat 64 maxBuffer)
  | .toPrint fd =>
    (p.bufIn = blank ∨ fd = true ∧ p.bufIn = bufOut) ∧ p.stdout = heading fd ∧ c = .idle
  | .done fd =>
    (p.bufIn = blank ∨ fd = true ∧ p.bufIn = bufOut) ∧
      p.stdout = heading fd ++ [.buffer p.bufIn] ∧ c = .idle

/-- A process reads after it has written. -/
theorem Proc.hasRead_le_wrote (p : Proc) : p.hasRead ≤ p.wrote := by
  obtain ⟨pc, bufIn, stdout⟩ := p
  cases pc with
  | toOpen => exact Nat.zero_le _
  | toWrite fd => exact Nat.zero_le _
  | inWrite => exact Nat.zero_le _
  | toRead fd => exact Nat.zero_le _
  | inRead => exact Nat.zero_le _
  | toPrint fd => cases fd <;> exact Nat.le_refl _
  | done fd => cases fd <;> exact Nat.le_refl _

/-! ## All processes -/

variable [Fintype ι] {s s' : State ι} {w r : Nat} {t : ι}

/-- How many processes have written, have read, and have the alphabet. -/
def State.sum (s : State ι) (f : Proc → Nat) : Nat := ∑ t, f (s.proc t)

/-- The driver has taken the first 157 alphabets of those written, the first 157 reads have
been served, and no process has anything else in its buffer. -/
structure Inv (s : State ι) (w r : Nat) : Prop where
  held : Held s.clients w r
  ok : ∀ t, (s.proc t).Ok (s.clients.pc t)
  wrote : w = min (s.sum Proc.wrote) room
  read : r = min (s.sum Proc.hasRead) room
  served : s.sum Proc.served = r

omit [DecidableEq ι] in
theorem sum_start (kmalloc : Memory UInt8) {f : Proc → Nat} (hf : f Proc.start = 0) :
    (start kmalloc : State ι).sum f = 0 :=
  Finset.sum_eq_zero fun _ _ => hf

omit [DecidableEq ι] in
theorem inv_start (kmalloc : Memory UInt8) : Inv (start kmalloc : State ι) 0 0 where
  held := held_start kmalloc
  ok _ := ⟨rfl, rfl⟩
  wrote := by rw [sum_start kmalloc rfl, Nat.zero_min]
  read := by rw [sum_start kmalloc rfl, Nat.zero_min]
  served := sum_start kmalloc rfl

/-- Process `t` moves, and the driver and its client with it. -/
theorem Inv.move (h : Inv s w r) {p : Proc} {clients : Clients ι} {c : CharDrv.Pc} {w' r' : Nat}
    (hpc : clients.pc = Function.update s.clients.pc t c) (hheld : Held clients w' r')
    (hok : p.Ok c) (hw : w' = min (s.sum Proc.wrote + p.wrote - (s.proc t).wrote) room)
    (hr : r' = min (s.sum Proc.hasRead + p.hasRead - (s.proc t).hasRead) room)
    (hg : s.sum Proc.served + p.served - (s.proc t).served = r') :
    Inv ⟨clients, Function.update s.proc t p⟩ w' r' := by
  have hsum : ∀ f : Proc → Nat, (⟨clients, Function.update s.proc t p⟩ : State ι).sum f
      = s.sum f + f p - f (s.proc t) := by
    intro f
    have := sum_update (fun _ p => f p) s.proc t p
    exact Nat.eq_sub_of_add_eq this
  refine ⟨hheld, fun u => ?_, by rw [hsum, hw], by rw [hsum, hr], by rw [hsum, hg]⟩
  show (Function.update s.proc t p u).Ok (clients.pc u)
  rw [hpc]
  by_cases hu : u = t
  · subst hu
    rw [Function.update_self, Function.update_self]
    exact hok
  · rw [Function.update_of_ne hu, Function.update_of_ne hu]
    exact h.ok u

/-- A step without a call, or one from which the call does not return: the process counts
as before. -/
theorem Inv.quiet (h : Inv s w r) {p : Proc} {clients : Clients ι} {c : CharDrv.Pc}
    (hpc : clients.pc = Function.update s.clients.pc t c) (hheld : Held clients w r)
    (hok : p.Ok c) (hw : p.wrote = (s.proc t).wrote) (hr : p.hasRead = (s.proc t).hasRead)
    (hg : p.served = (s.proc t).served) : Inv ⟨clients, Function.update s.proc t p⟩ w r := by
  refine h.move hpc hheld hok ?_ ?_ ?_
  · rw [hw, Nat.add_sub_cancel]
    exact h.wrote
  · rw [hr, Nat.add_sub_cancel]
    exact h.read
  · rw [hg, Nat.add_sub_cancel]
    exact h.served

/-- A process calls `write`. -/
theorem Inv.toWrite (h : Inv s w r) (hser : s.clients.Serialised (.write t bufOut))
    (ht : s.proc t = ⟨.toWrite true, blank, heading true⟩)
    (hs : s.call t (.write t bufOut) (s.proc t) .inWrite (.toRead true) = some s') :
    ∃ w' r', Inv s' w' r' := by
  obtain ⟨clients, hstep, rfl⟩ := call_cases hs
  have hw := h.wrote
  have hr := h.read
  have hg := h.served
  cases hstep with
  | refused hc hfull =>
    rw [h.held.refuses_iff] at hfull
    have hpc : (s.clients.begin t .idle).pc t = .idle := Function.update_self _ _ _
    rw [hpc, ht]
    refine ⟨w, r, h.move (c := .idle) rfl (h.held.move (c := t) rfl rfl nofun (fun hw => hw.elim)
      fun hr => hr.elim) ⟨rfl, rfl⟩ ?_ ?_ ?_⟩
    · rw [ht]
      show w = min (s.sum Proc.wrote + 1 - 0) room
      omega
    · rw [ht]
      exact hr
    · rw [ht]
      exact hg
  | write hc hn hpass =>
    rw [h.held.refuses_iff] at hpass
    have hpc : (s.clients.begin t (.writeCopy bufOut)).pc t = .writeCopy bufOut :=
      Function.update_self _ _ _
    rw [hpc, ht]
    exact ⟨w, r, h.quiet (c := .writeCopy bufOut) rfl (h.held.move (c := t) rfl rfl nofun
      (fun _ => .inr ⟨hser, Nat.lt_of_not_le hpass⟩) fun hr => hr.elim) ⟨rfl, .inl rfl⟩
      (by rw [ht]; rfl) (by rw [ht]; rfl) (by rw [ht]; rfl)⟩

/-- A process is in `write`. -/
theorem Inv.inWrite (h : Inv s w r) (ht : s.proc t = ⟨.inWrite, blank, heading true⟩)
    (hc : s.clients.pc t = .writeCopy bufOut ∨ s.clients.pc t = .writeAdvance bufOut)
    (hs : s.call t (.step t) (s.proc t) .inWrite (.toRead true) = some s') :
    ∃ w' r', Inv s' w' r' := by
  obtain ⟨clients, hstep, rfl⟩ := call_cases hs
  have hw := h.wrote
  have hr := h.read
  have hg := h.served
  cases hstep with
  | @writeCopy _ buf hcopy =>
    obtain rfl : buf = bufOut := by
      rw [hcopy] at hc
      simpa using hc
    rw [show Clients.pc _ t = _ from Function.update_self _ _ _, ht]
    exact ⟨w, r, h.quiet (c := .writeAdvance bufOut) rfl (h.held.writeCopy hcopy rfl rfl)
      ⟨rfl, .inr rfl⟩ (by rw [ht]) (by rw [ht]) (by rw [ht])⟩
  | @writeAdvance _ buf hadv =>
    obtain rfl : buf = bufOut := by
      rw [hadv] at hc
      simpa using hc
    have hfits := h.held.fits t (by rw [hadv]; trivial)
    rw [show Clients.pc _ t = _ from Function.update_self _ _ _, ht]
    refine ⟨w + 1, r, h.move (c := .idle) rfl (h.held.writeAdvance hadv rfl rfl) ⟨rfl, rfl⟩
      ?_ ?_ ?_⟩
    · rw [ht]
      show w + 1 = min (s.sum Proc.wrote + 1 - 0) room
      omega
    · rw [ht]
      exact hr
    · rw [ht]
      exact hg
  | readCount hcount =>
    rw [hcount] at hc
    simp at hc
  | readCopy hcopy =>
    rw [hcopy] at hc
    simp at hc
  | readAdvance hadv =>
    rw [hadv] at hc
    simp at hc

/-- A process calls `read`. By then it has written, so that an alphabet is waiting unless
all that the driver took have been read. -/
theorem Inv.toRead (h : Inv s w r) (hser : s.clients.Serialised (.read t maxBuffer))
    (ht : s.proc t = ⟨.toRead true, blank, heading true⟩)
    (hs : s.call t (.read t maxBuffer) (s.proc t) .inRead (.toPrint true) = some s') :
    ∃ w' r', Inv s' w' r' := by
  obtain ⟨clients, hstep, rfl⟩ := call_cases hs
  have hw := h.wrote
  have hr := h.read
  have hg := h.served
  cases hstep with
  | empty hc hnone =>
    rw [h.held.nothingUnread_iff] at hnone
    have hlt : s.sum Proc.hasRead < s.sum Proc.wrote :=
      Finset.sum_lt_sum (fun u _ => Proc.hasRead_le_wrote _)
        ⟨t, Finset.mem_univ t, by rw [ht]; exact Nat.zero_lt_one⟩
    rw [show Clients.pc _ t = _ from Function.update_self _ _ _, ht]
    refine ⟨w, r, h.move (c := .idle) rfl (h.held.move (c := t) rfl rfl nofun (fun hw => hw.elim)
      fun hr => hr.elim) ⟨.inl rfl, rfl, rfl⟩ ?_ ?_ ?_⟩
    · rw [ht]
      exact hw
    · rw [ht]
      show r = min (s.sum Proc.hasRead + 1 - 0) room
      omega
    · rw [ht]
      exact hg
  | read hc hn hsome =>
    rw [h.held.nothingUnread_iff] at hsome
    have hle := h.held.offsets.le
    rw [show Clients.pc _ t = _ from Function.update_self _ _ _, ht]
    exact ⟨w, r, h.quiet (c := .readCount (BitVec.ofNat 64 maxBuffer)) rfl
      (h.held.move (c := t) rfl rfl nofun (fun hw => hw.elim) fun _ => .inr ⟨hser, by omega⟩)
      (.inl ⟨rfl, .inl rfl⟩) (by rw [ht]; rfl) (by rw [ht]; rfl) (by rw [ht]; rfl)⟩

/-- A process is in `read`. -/
theorem Inv.inRead (h : Inv s w r)
    (ht : s.proc t = ⟨.inRead, blank, heading true⟩ ∧
        (s.clients.pc t = .readCount (BitVec.ofNat 64 maxBuffer) ∨
          s.clients.pc t = .readCopy (BitVec.ofNat 64 maxBuffer)) ∨
      s.proc t = ⟨.inRead, bufOut, heading true⟩ ∧
        s.clients.pc t = .readAdvance (BitVec.ofNat 64 maxBuffer))
    (hs : s.call t (.step t) { s.proc t with bufIn := s.received t } .inRead (.toPrint true)
      = some s') : ∃ w' r', Inv s' w' r' := by
  obtain ⟨clients, hstep, rfl⟩ := call_cases hs
  have hw := h.wrote
  have hr := h.read
  have hg := h.served
  cases hstep with
  | writeCopy hcopy =>
    rw [hcopy] at ht
    simp at ht
  | writeAdvance hadv =>
    rw [hadv] at ht
    simp at ht
  | @readCount _ count hcount =>
    obtain ⟨ht, rfl⟩ : s.proc t = ⟨.inRead, blank, heading true⟩ ∧
        count = BitVec.ofNat 64 maxBuffer := by
      rw [hcount] at ht
      simpa using ht
    have hlt := h.held.unread t (by rw [hcount]; trivial)
    have hsame : s.received t = blank := by rw [State.received, hcount, ht]
    rw [h.held.minCount hlt, show Clients.pc _ t = _ from Function.update_self _ _ _, hsame, ht]
    exact ⟨w, r, h.quiet (c := .readCopy (BitVec.ofNat 64 maxBuffer)) rfl
      (h.held.move (c := t) rfl rfl nofun (fun hw => hw.elim)
        fun _ => .inl (by rw [hcount]; trivial))
      (.inl ⟨rfl, .inr rfl⟩) (by rw [ht]) (by rw [ht]) (by rw [ht])⟩
  | @readCopy _ count hcopy =>
    obtain ⟨ht, rfl⟩ : s.proc t = ⟨.inRead, blank, heading true⟩ ∧
        count = BitVec.ofNat 64 maxBuffer := by
      rw [hcopy] at ht
      simpa using ht
    have hlt := h.held.unread t (by rw [hcopy]; trivial)
    have hfull : s.received t = bufOut := by
      simp only [State.received, hcopy, h.held.copyToUser hlt, ht]
      exact List.append_nil bufOut
    rw [show Clients.pc _ t = _ from Function.update_self _ _ _, hfull, ht]
    exact ⟨w, r, h.quiet (c := .readAdvance (BitVec.ofNat 64 maxBuffer)) rfl
      (h.held.move (c := t) rfl rfl nofun (fun hw => hw.elim)
        fun _ => .inl (by rw [hcopy]; trivial))
      (.inr ⟨rfl, rfl⟩) (by rw [ht]; rfl) (by rw [ht]; rfl) (by rw [ht]; rfl)⟩
  | @readAdvance _ count hadv =>
    obtain ⟨ht, rfl⟩ : s.proc t = ⟨.inRead, bufOut, heading true⟩ ∧
        count = BitVec.ofNat 64 maxBuffer := by
      rw [hadv] at ht
      simpa using ht
    have hlt := h.held.unread t (by rw [hadv]; trivial)
    have hsame : s.received t = bufOut := by rw [State.received, hadv, ht]
    rw [show Clients.pc _ t = _ from Function.update_self _ _ _, hsame, ht]
    refine ⟨w, r + 1, h.move (c := .idle) rfl (h.held.readAdvance hadv rfl rfl)
      ⟨.inr ⟨rfl, rfl⟩, rfl, rfl⟩ ?_ ?_ ?_⟩
    · rw [ht]
      exact hw
    · rw [ht]
      show r + 1 = min (s.sum Proc.hasRead + 1 - 0) room
      omega
    · rw [ht]
      show s.sum Proc.served + 1 - 0 = r + 1
      omega

/-- Every step of a process keeps the invariant, if no call overlaps one of its kind. -/
theorem inv_step {e : Event ι} (h : Inv s w r) (hser : Serialised s e)
    (hs : next s e = some s') : ∃ w' r', Inv s' w' r' := by
  -- a step without a call
  have hlocal : ∀ {t : ι} {p : Proc}, s.clients.pc t = .idle → p.Ok .idle →
      p.wrote = (s.proc t).wrote → p.hasRead = (s.proc t).hasRead →
      p.served = (s.proc t).served → ∃ w' r', Inv (s.put t p) w' r' := by
    intro t p hidle hok hw hr hg
    have hpc : s.clients.pc = Function.update s.clients.pc t .idle := by
      rw [← hidle, Function.update_eq_self]
    exact ⟨w, r, h.quiet hpc h.held hok hw hr hg⟩
  cases e with
  | opens t ok =>
    have ht := h.ok t
    simp only [next] at hs
    split at hs
    · rename_i hpc
      cases hs
      rw [Proc.Ok, hpc] at ht
      obtain ⟨ht, hidle⟩ := ht
      exact hlocal hidle ⟨rfl, rfl⟩ (by rw [ht]; rfl) (by rw [ht]; rfl) (by rw [ht]; rfl)
    · cases hs
  | step t =>
    have ht := h.ok t
    simp only [next] at hs
    split at hs
    · cases hs
    · rename_i hpc
      rw [Proc.Ok, hpc] at ht
      exact h.toWrite (hser.1 hpc) ht.1 hs
    · rename_i hpc
      cases hs
      rw [Proc.Ok, hpc] at ht
      obtain ⟨ht, hidle⟩ := ht
      rw [ht]
      exact hlocal hidle ⟨rfl, rfl⟩ (by rw [ht]; rfl) (by rw [ht]; rfl) (by rw [ht]; rfl)
    · rename_i hpc
      rw [Proc.Ok, hpc] at ht
      exact h.inWrite ht.1 ht.2 hs
    · rename_i hpc
      rw [Proc.Ok, hpc] at ht
      exact h.toRead (hser.2 hpc) ht.1 hs
    · rename_i hpc
      cases hs
      rw [Proc.Ok, hpc] at ht
      obtain ⟨ht, hidle⟩ := ht
      rw [ht]
      exact hlocal hidle ⟨.inl rfl, rfl, rfl⟩ (by rw [ht]; rfl) (by rw [ht]; rfl)
        (by rw [ht]; rfl)
    · rename_i hpc
      rw [Proc.Ok, hpc] at ht
      exact h.inRead ht hs
    · rename_i fd hpc
      cases hs
      rw [Proc.Ok, hpc] at ht
      obtain ⟨hbuf, hout, hidle⟩ := ht
      refine hlocal hidle ⟨hbuf, by rw [hout], rfl⟩ ?_ ?_ ?_
      · rw [Proc.wrote, Proc.wrote, hpc]
        cases fd <;> rfl
      · rw [Proc.hasRead, Proc.hasRead, hpc]
        cases fd <;> rfl
      · rw [Proc.served, Proc.served, Proc.hasRead, Proc.hasRead, hpc]
        cases fd <;> rfl
    · cases hs

/-- **Every process prints the alphabet or nothing but the letter A**, as long as no two
writes overlap and no two reads do: what it read is never a mixture, also where another
process wrote it or is writing meanwhile. Of the processes whose read has returned, the
first 157 got the alphabet, and the others nothing. -/
theorem users_print (kmalloc : Memory UInt8) (es : List (Event ι)) (s : State ι)
    (hC : StepsMeet next Serialised (start kmalloc) es)
    (hr : run next (start kmalloc) es = some s) :
    (∀ t fd, (s.proc t).pc = .done fd →
      (s.proc t).stdout = heading fd ++ [.buffer (s.proc t).bufIn] ∧
      ((s.proc t).bufIn = blank ∨ fd = true ∧ (s.proc t).bufIn = bufOut)) ∧
    (Finset.univ.filter fun t => (s.proc t).hasRead = 1 ∧ (s.proc t).bufIn = bufOut).card =
      min (Finset.univ.filter fun t => (s.proc t).hasRead = 1).card room := by
  obtain ⟨w, r, hinv⟩ := run_inv_where (I := fun s => ∃ w r, Inv s w r)
    (fun ⟨_, _, h⟩ he hs => inv_step h he hs) ⟨0, 0, inv_start kmalloc⟩ hC hr
  refine ⟨fun t fd hpc => ?_, ?_⟩
  · have ht := hinv.ok t
    rw [Proc.Ok, hpc] at ht
    exact ⟨ht.2.1, ht.1⟩
  · have hle : ∀ p : Proc, p.hasRead ≤ 1 := by
      intro p
      unfold Proc.hasRead
      split <;> omega
    have hread : ∀ p : Proc, p.hasRead = if p.hasRead = 1 then 1 else 0 := by
      intro p
      have := hle p
      split <;> omega
    have hserved : ∀ p : Proc, p.served = if p.hasRead = 1 ∧ p.bufIn = bufOut then 1 else 0 := by
      intro p
      rw [Proc.served]
      by_cases hbuf : p.bufIn = bufOut
      · rw [if_pos hbuf]
        exact (hread p).trans (if_congr (and_iff_left hbuf).symm rfl rfl)
      · rw [if_neg hbuf, if_neg fun h => hbuf h.2]
    have hcount := hinv.served.trans hinv.read
    rw [State.sum, State.sum, Finset.sum_congr rfl fun t _ => hserved (s.proc t),
      Finset.sum_congr rfl fun t _ => hread (s.proc t)] at hcount
    rwa [Finset.card_filter, Finset.card_filter]

/-- `true` writes; then it reads while `false` writes, and `false` reads last. -/
def meetingRun : List (Event Bool) :=
  [.opens true true, .step true, .step true, .step true, .step true, .opens false true,
    .step true, .step false, .step false, .step true, .step false, .step true, .step false,
    .step false, .step false, .step false, .step true, .step false]

/-- A read and a write that overlap: both processes get the alphabet. -/
theorem users_print_two :
    ∃ s : State Bool, run next (start fun _ => 0) meetingRun = some s ∧
      (Finset.univ.filter fun t => (s.proc t).hasRead = 1 ∧ (s.proc t).bufIn = bufOut).card
        = 2 := by
  obtain ⟨s, hs, hp⟩ := exists_run_of_any (next (ι := Bool)) (start fun _ => 0) meetingRun
    (fun s => decide (∀ t, (s.proc t).hasRead = 1)) (by decide)
  have hread := of_decide_eq_true hp
  obtain ⟨-, hcard⟩ := users_print (fun _ => 0) meetingRun s (by decide) hs
  rw [Finset.filter_true_of_mem (p := fun t => (s.proc t).hasRead = 1)
    fun t _ => hread t] at hcard
  exact ⟨s, hs, hcard⟩

/-- Both processes write at the same time, then `true` reads, and then `false`. -/
def overlappingRun : List (Event Bool) :=
  [.opens true true, .opens false true, .step true, .step false, .step true, .step false,
    .step true, .step false, .step true, .step true, .step true, .step true, .step false,
    .step false, .step false, .step false, .step false]

/-- **Nothing in the driver keeps two writes apart**: when the writes of two processes
overlap, one of them prints what the memory of the buffer held before. -/
theorem overlapping_users :
    ∃ s : State Bool, run next (start fun _ => 7) overlappingRun = some s ∧
      (s.proc false).stdout = [.buffer blank, .buffer (List.replicate 26 7)] := by
  obtain ⟨s, hs, hp⟩ := exists_run_of_any (next (ι := Bool)) (start fun _ => 7) overlappingRun
    (fun s => decide ((s.proc false).stdout = [.buffer blank, .buffer (List.replicate 26 7)]))
    (by decide)
  exact ⟨s, hs, of_decide_eq_true hp⟩

end Esystem.CharDrv.Users
