import SolidFrame.Utility.EventHandler
import SolidFrame.Utility.WorkPool
import SolidFrame.Serialization.TypeRegistration
import SolidFrame.Serialization.CrossPrefix
import SolidFrame.Serialization.LimitsAgree
import SolidFrame.Serialization.NullSize
import SolidFrame.Serialization.SerializerClear
import SolidFrame.Mpipc.MessageWriterProgress
import SolidFrame.Mpipc.MessageReaderCuts
import SolidFrame.Mpipc.ConnectionRecv
import SolidFrame.Mpipc.ConnectionComplete
import SolidFrame.Mpipc.MessageWriterSynchronous
import SolidFrame.Mpipc.PoolIndices
import SolidFrame.Mpipc.ServiceCleanOneShot
import SolidFrame.Mpipc.ServiceWakeup
import SolidFrame.Mpipc.ConnectionWriter
import SolidFrame.Mpipc.ServiceCounters
import SolidFrame.Frame.TimerPass
import SolidFrame.File.FileBufWrite
import SolidFrame.File.TempWaiting
import SolidFrame.File.TempFile
import SolidFrame.Frame.SharedStoreIndices
import SolidFrame.Frame.SharedStoreMutexes
import SolidFrame.Frame.ManagerIdentity
import SolidFrame.Frame.AioReactorEvents
import SolidFrame.Frame.AioChannels
