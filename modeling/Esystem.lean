import Esystem.Kthread.Mutex
import Esystem.Kthread.Semaphore
import Esystem.Kthread.Spinlock
import Esystem.Kthread.Deadlock
import Esystem.Kthread.DeadlockSol
import Esystem.Kthread.MessageQueue
import Esystem.Kthread.NulTermination
import Esystem.Kthread.HandOver
import Esystem.Kthread.Unmapping
import Esystem.Kthread.Balance
import Esystem.Kthread.Completion
import Esystem.Kthread.Leaks
import Esystem.Kthread.Reports
import Esystem.Kthread.Backlog
import Esystem.Kthread.Histories
import Esystem.Kthread.OneBoard
import Esystem.CharDrv.Fifo
import Esystem.CharDrv.Capacity
import Esystem.CharDrv.Chunks
import Esystem.CharDrv.Faults
import Esystem.CharDrv.Init
import Esystem.CharDrv.Clients
import Esystem.CharDrv.Users
import Esystem.Softirq.Toggle
import Esystem.Softirq.SelfWait
import Esystem.Softirq.Ownership
import Esystem.Switch.Polling
import Esystem.Switch.Resources
import Esystem.Switch.Interrupt
import Esystem.Led.Equivalence
import Esystem.Led.Concurrent
import Esystem.Board.RawModules
import Esystem.Board.Overlap
import Esystem.Device.Drivers
import Esystem.Process.Listing
import Esystem.Script.GpioScript
import Esystem.Script.SharedChip
import Esystem.Socket.EchoServer
import Esystem.Core.Termination
import Esystem.Core.LockLeak
