import CandCpp.Network.ReceiveContract
import CandCpp.Network.Dispatch
import CandCpp.Network.TraceMessages
import CandCpp.Network.TraceDecoders
import CandCpp.Network.ConsumerToken
import CandCpp.Network.EchoServers
import CandCpp.Network.TapUdpServer
import CandCpp.Threads.ScopedLock
import CandCpp.Foundation.Ownership
import CandCpp.Objects.User
import CandCpp.Foundation.VectorIterator
import CandCpp.Network.ResponseWait
import CandCpp.Objects.EraseLoop
import CandCpp.Network.GptServers
import CandCpp.Network.SocketSelection
import CandCpp.Network.Counters
import CandCpp.Foundation.SystemVQueue
import CandCpp.Network.TapDescriptors
import CandCpp.Threads.MessageQueue
import CandCpp.Foundation.FixedWidth
import CandCpp.Objects.VariadicAdd
import CandCpp.Foundation.InternetAddress
import CandCpp.Network.UdpClient2
import CandCpp.Threads.LinuxThread
import CandCpp.Foundation.FunctionObjects
import CandCpp.Objects.Lambda
import CandCpp.Foundation.Lifetimes
import CandCpp.Queue.BlockPoolInvariant
import CandCpp.Queue.QueueDelivery
import CandCpp.Queue.BlockSharing
