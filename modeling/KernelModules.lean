import KernelModules.Lib.Run
import KernelModules.Lib.Ring
import KernelModules.Lib.Wakeup
import KernelModules.Lib.Ledger
import KernelModules.Lib.Census
import KernelModules.Lib.TryLock
import KernelModules.Lib.Memory
import KernelModules.Lib.LinkedList
import KernelModules.Lib.Clock
import KernelModules.Lib.CString
import KernelModules.Lib.ModuleRef
import KernelModules.Lib.Decimal
import KernelModules.Lib.Mixing
import KernelModules.Lib.Loader
import KernelModules.Keylogger.Buffer
import KernelModules.Keylogger.System
import KernelModules.Keylogger.History
import KernelModules.Keylogger.Faults
import KernelModules.Keylogger.Command
import KernelModules.Keylogger.Typing
import KernelModules.ListSync.TaskList
import KernelModules.ListSync.Threads
import KernelModules.ListSync.Adds
import KernelModules.ListSync.Nodes
import KernelModules.ListSync.Expiry
import KernelModules.ListSync.Counts
import KernelModules.ListSync.Failures
import KernelModules.Edu.Device
import KernelModules.Edu.Driver
import KernelModules.Edu.Wakeup
import KernelModules.Edu.Transfers
import KernelModules.Edu.RoundTrip
import KernelModules.Edu.Answers
import KernelModules.Edu.Lifecycle
import KernelModules.Edu.Mapping
import KernelModules.Edu.Confinement
import KernelModules.Edu.Claiming
import KernelModules.Edu.Mmap
import KernelModules.Chrdev.Region
import KernelModules.Deferred.Device
import KernelModules.Deferred.Monitor
import KernelModules.Deferred.Timer
import KernelModules.Deferred.Pin
import KernelModules.Deferred.Lifecycle
import KernelModules.Deferred.Delay
import KernelModules.Deferred.Periodic
import KernelModules.Deferred.UserTest
import KernelModules.Networking.Filter
import KernelModules.Networking.Copying
import KernelModules.CharDevice.Ioctl
import KernelModules.CharDevice.Message
import KernelModules.CharDevice.Session
import KernelModules.CharDevice.Sentinel
import KernelModules.CharDevice.Ioctltest
import KernelModules.CharDevice.Reference
import KernelModules.So2Cdev.Device
import KernelModules.So2Cdev.Stream
import KernelModules.So2Cdev.Wait
import KernelModules.So2Cdev.Access
import KernelModules.Procfs.Buffer2k
import KernelModules.Procfs.Helloworld
import KernelModules.Procfs.Reference
import KernelModules.Procfs.HelloSysfs
import KernelModules.KernelApi.Kthread
import KernelModules.KernelApi.KthreadStop
import KernelModules.KernelApi.Loading
