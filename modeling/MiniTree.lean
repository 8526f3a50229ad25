import MiniTree.Algorithm.DoubleBuffer
import MiniTree.Interrupt
import MiniTree.Bare.CoreMutex
import MiniTree.Bare.Delivery
import MiniTree.Bare.Preempt
import MiniTree.Board.Clients
import MiniTree.Board.BusHosts
import MiniTree.Board.Teardown
import MiniTree.Board.Lifecycle
import MiniTree.Board.ConfigKeys
import MiniTree.Board.ConfigCommit
import MiniTree.Board.ConfigFactory
import MiniTree.Os.Selection
import MiniTree.Os.InheritanceRun
import MiniTree.Os.SemaphoreUnits
import MiniTree.Os.QueueTeardown
import MiniTree.Os.ObjectLife
import MiniTree.Os.MutexRefs
import MiniTree.Os.Join
import MiniTree.Os.HeapClients
import MiniTree.Os.Slab
import MiniTree.Ota.VerifyEquiv
import MiniTree.Ota.CheckBinFile
import MiniTree.Ota.Activate
import MiniTree.Net.TcpClient
import MiniTree.Net.BrokerStream
import MiniTree.Net.BrokerSessions
import MiniTree.EventBus
import MiniTree.SafeState
import MiniTree.Dtc.Lossless
import MiniTree.Dtc.Emit
import MiniTree.Dtc.Preprocess
import MiniTree.Dtc.Enums
import MiniTree.Dtc.Fold
import MiniTree.Log.FlashRecovery
import MiniTree.Ota.JournalUpdate
import MiniTree.Ota.CrcAgree
import MiniTree.Drivers.At24c02
import MiniTree.Drivers.Modbus
import MiniTree.Drivers.Epaper
