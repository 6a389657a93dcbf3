import Esystem.Kthread.Worker

/-!
# The thread functions of the seven lock modules

One round of `thread_function1` and `thread_function2` of each module, statement
by statement, and the module's system of threads. `bound` stands for the loop
bound, 5 in the source.
-/

namespace Esystem

/-- One round of a thread function: between `before` and `after`, the part they
all share, `shared_counter++`, the `printk` of its value, and the LED `pin` on
for a second. -/
def blinkRound {L X : Type} (before : Block L (KOp X)) (pin setOffset clrOffset : Nat)
    (after : Block L (KOp X)) : Block L (KOp X) :=
  before ++
    .act .loadCounter :: .act .storeCounter :: .act .printkCounter ::
    .act (.writel (bit pin) setOffset) :: .act (.msleep 1000) ::
    .act (.writel (bit pin) clrOffset) :: after

/-- `my_mutex` of mutex.c, messageq.c and sharedm.c. -/
inductive MyMutex where
  | myMutex
  deriving DecidableEq

/-! ## mutex.c -/

namespace Mutex

def threadFunction1 : Block MyMutex (KOp Empty) :=
  blinkRound [.lock .myMutex] 18 gpioSetOffset18 gpioClrOffset18
    [.unlock .myMutex, .act (.msleep 500)]

def threadFunction2 : Block MyMutex (KOp Empty) :=
  blinkRound [.lock .myMutex] 23 gpioSetOffset23 gpioClrOffset23
    [.unlock .myMutex, .act (.msleep 500)]

def threadFunction : Worker → Block MyMutex (KOp Empty)
  | .thread1 => threadFunction1
  | .thread2 => threadFunction2

/-- The two threads over `my_mutex`. -/
def threads (bound : Worker → Nat) :
    LoopSys Worker MyMutex (KOp Empty) (MyMutex → Option Worker) (KReg Unit) (KShared Unit) :=
  kthreads (exclusive true) bound threadFunction noExtra

end Mutex

/-! ## semaphore.c -/

namespace Semaphore

/-- `my_semaphore`. -/
inductive MySemaphore where
  | mySemaphore
  deriving DecidableEq

def threadFunction1 : Block MySemaphore (KOp Empty) :=
  blinkRound [.lock .mySemaphore] 18 gpioSetOffset18 gpioClrOffset18
    [.unlock .mySemaphore, .act (.msleep 500)]

def threadFunction2 : Block MySemaphore (KOp Empty) :=
  blinkRound [.lock .mySemaphore] 23 gpioSetOffset23 gpioClrOffset23
    [.unlock .mySemaphore, .act (.msleep 500)]

def threadFunction : Worker → Block MySemaphore (KOp Empty)
  | .thread1 => threadFunction1
  | .thread2 => threadFunction2

/-- The two threads over `my_semaphore`, a counter. -/
def threads (bound : Worker → Nat) :
    LoopSys Worker MySemaphore (KOp Empty) (MySemaphore → Nat) (KReg Unit) (KShared Unit) :=
  kthreads (counting true) bound threadFunction noExtra

end Semaphore

/-! ## spinlock.c -/

namespace Spinlock

/-- `my_spinlock`. -/
inductive MySpinlock where
  | mySpinlock
  deriving DecidableEq

def threadFunction1 : Block MySpinlock (KOp Empty) :=
  blinkRound [.lock .mySpinlock] 18 gpioSetOffset18 gpioClrOffset18
    [.unlock .mySpinlock, .act (.msleep 500)]

def threadFunction2 : Block MySpinlock (KOp Empty) :=
  blinkRound [.lock .mySpinlock] 23 gpioSetOffset23 gpioClrOffset23
    [.unlock .mySpinlock, .act (.msleep 500)]

def threadFunction : Worker → Block MySpinlock (KOp Empty)
  | .thread1 => threadFunction1
  | .thread2 => threadFunction2

/-- The two threads over `my_spinlock`, whose acquisition cannot be interrupted. -/
def threads (bound : Worker → Nat) :
    LoopSys Worker MySpinlock (KOp Empty) (MySpinlock → Option Worker) (KReg Unit)
      (KShared Unit) :=
  kthreads (exclusive false) bound threadFunction noExtra

end Spinlock

/-! ## deadlock.c and deadlock_sol.c -/

/-- `my_mutex1` and `my_mutex2`. -/
inductive MyMutexes where
  | myMutex1
  | myMutex2
  deriving DecidableEq

instance : Fintype MyMutexes where
  elems := {.myMutex1, .myMutex2}
  complete l := by cases l <;> decide

namespace Deadlock

def threadFunction1 : Block MyMutexes (KOp Empty) :=
  blinkRound [.lock .myMutex1, .act (.msleep 1000), .lock .myMutex2]
    18 gpioSetOffset18 gpioClrOffset18
    [.unlock .myMutex2, .unlock .myMutex1, .act (.msleep 500)]

def threadFunction2 : Block MyMutexes (KOp Empty) :=
  blinkRound [.lock .myMutex2, .lock .myMutex1]
    23 gpioSetOffset23 gpioClrOffset23
    [.unlock .myMutex1, .unlock .myMutex2, .act (.msleep 500)]

def threadFunction : Worker → Block MyMutexes (KOp Empty)
  | .thread1 => threadFunction1
  | .thread2 => threadFunction2

/-- The two threads over `my_mutex1` and `my_mutex2`. -/
def threads (bound : Worker → Nat) :
    LoopSys Worker MyMutexes (KOp Empty) (MyMutexes → Option Worker) (KReg Unit)
      (KShared Unit) :=
  kthreads (exclusive true) bound threadFunction noExtra

end Deadlock

namespace DeadlockSol

def threadFunction1 : Block MyMutexes (KOp Empty) :=
  blinkRound [.lock .myMutex1, .lock .myMutex2]
    18 gpioSetOffset18 gpioClrOffset18
    [.unlock .myMutex2, .unlock .myMutex1, .act (.msleep 500)]

def threadFunction2 : Block MyMutexes (KOp Empty) :=
  blinkRound [.lock .myMutex1, .lock .myMutex2]
    23 gpioSetOffset23 gpioClrOffset23
    [.unlock .myMutex2, .unlock .myMutex1, .act (.msleep 500)]

def threadFunction : Worker → Block MyMutexes (KOp Empty)
  | .thread1 => threadFunction1
  | .thread2 => threadFunction2

/-- Threads `ι` over `my_mutex1` and `my_mutex2`; thread `t` runs the function
`fn t`. The module starts one instance of each. -/
def threads {ι : Type} [DecidableEq ι] (fn : ι → Worker) (bound : ι → Nat) :
    LoopSys ι MyMutexes (KOp Empty) (MyMutexes → Option ι) (KReg Unit) (KShared Unit) :=
  kthreads (exclusive true) bound (fun t => threadFunction (fn t)) noExtra

end DeadlockSol

/-! ## messageq.c -/

namespace MessageQueue

/-- `#define FIFO_SIZE 1024`. -/
def fifoSize : Nat := 1024

/-- `char message[] = "Hello from Thread 1!";` with its terminating NUL. -/
def message : List UInt8 :=
  ['H', 'e', 'l', 'l', 'o', ' ', 'f', 'r', 'o', 'm', ' ',
    'T', 'h', 'r', 'e', 'a', 'd', ' ', '1', '!'].map (fun c => UInt8.ofNat c.toNat) ++ [0]

/-- `char buffer[100];`. -/
def Buffer : Type := { b : List UInt8 // b.length = 100 }

/-- The string at the start of a buffer, which ends at the first NUL. -/
def cString (b : List UInt8) : List UInt8 :=
  b.takeWhile (· != 0)

/-- The FIFO and what has happened to it, oldest first: the strings reported as
sent and as received so far, and the bytes removed. -/
structure Fifo where
  sharedFifo : List UInt8
  sent : List (List UInt8)
  received : List (List UInt8)
  removed : List UInt8

/-- The statements on the FIFO. -/
inductive FifoOp where
  | kfifoIn
  | kfifoOut
  deriving DecidableEq

/-- `kfifo_out(&shared_fifo, buffer, sizeof(buffer))` overwrites the start of
the buffer. -/
def kfifoOut (fifo : List UInt8) (buffer : Buffer) : Buffer :=
  ⟨fifo.take 100 ++ buffer.val.drop (fifo.take 100).length, by
    have := buffer.property
    simp only [List.length_append, List.length_take, List.length_drop]
    omega⟩

/-- `kfifo_in(&shared_fifo, message, sizeof(message))` appends what fits, and the
message is reported as sent; `if (kfifo_out(…)) printk(…, buffer)` reports the
string in the buffer when something was removed. -/
def exec (_i : Nat) : FifoOp → Buffer → Fifo → Buffer × Fifo
  | .kfifoIn, buffer, q =>
    (buffer, { q with
      sharedFifo := q.sharedFifo ++ message.take (fifoSize - q.sharedFifo.length)
      sent := q.sent ++ [cString message] })
  | .kfifoOut, buffer, q =>
    let buffer' := kfifoOut q.sharedFifo buffer
    (buffer', { q with
      sharedFifo := q.sharedFifo.drop 100
      received :=
        if q.sharedFifo = [] then q.received else q.received ++ [cString buffer'.val]
      removed := q.removed ++ q.sharedFifo.take 100 })

def threadFunction1 : Block MyMutex (KOp FifoOp) :=
  blinkRound [.lock .myMutex, .act (.extra .kfifoIn), .act (.msleep 1000)]
    18 gpioSetOffset18 gpioClrOffset18
    [.unlock .myMutex, .act (.msleep 500)]

def threadFunction2 : Block MyMutex (KOp FifoOp) :=
  blinkRound [.lock .myMutex, .act (.extra .kfifoOut)]
    23 gpioSetOffset23 gpioClrOffset23
    [.unlock .myMutex, .act (.msleep 500)]

def threadFunction : Worker → Block MyMutex (KOp FifoOp)
  | .thread1 => threadFunction1
  | .thread2 => threadFunction2

/-- The sender `thread1` and the receiver `thread2` over `my_mutex`. -/
def threads (bound : Worker → Nat) :
    LoopSys Worker MyMutex (KOp FifoOp) (MyMutex → Option Worker) (KReg Buffer)
      (KShared Fifo) :=
  kthreads (exclusive true) bound threadFunction exec

end MessageQueue

/-! ## sharedm.c -/

namespace SharedMemory

/-- The word at `virt_addr`, when it is mapped, with the values reported as sent
and as received so far, oldest first. -/
structure Shm where
  virtAddr : Option CInt
  sent : List CInt
  received : List CInt

/-- The statements on the shared word. -/
inductive ShmOp where
  | send
  | receive
  deriving DecidableEq

/-- `if (virt_addr) { *((int *)virt_addr) = 1000 + i; … }` and the `printk` of
the word by the receiver. -/
def exec (i : Nat) : ShmOp → Unit → Shm → Unit × Shm
  | .send, u, m =>
    match m.virtAddr with
    | some _ =>
      (u, { m with
        virtAddr := some (BitVec.ofNat 32 (1000 + i))
        sent := m.sent ++ [BitVec.ofNat 32 (1000 + i)] })
    | none => (u, m)
  | .receive, u, m =>
    match m.virtAddr with
    | some v => (u, { m with received := m.received ++ [v] })
    | none => (u, m)

def threadFunction1 : Block MyMutex (KOp ShmOp) :=
  blinkRound [.lock .myMutex, .act (.extra .send), .act (.msleep 1000)]
    18 gpioSetOffset18 gpioClrOffset18
    [.unlock .myMutex, .act (.msleep 500)]

def threadFunction2 : Block MyMutex (KOp ShmOp) :=
  blinkRound [.lock .myMutex, .act (.extra .receive)]
    23 gpioSetOffset23 gpioClrOffset23
    [.unlock .myMutex, .act (.msleep 500)]

def threadFunction : Worker → Block MyMutex (KOp ShmOp)
  | .thread1 => threadFunction1
  | .thread2 => threadFunction2

/-- The sender `thread1` and the receiver `thread2` over `my_mutex`. -/
def threads (bound : Worker → Nat) :
    LoopSys Worker MyMutex (KOp ShmOp) (MyMutex → Option Worker) (KReg Unit) (KShared Shm) :=
  kthreads (exclusive true) bound threadFunction exec

end SharedMemory

end Esystem
