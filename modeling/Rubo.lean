import Rubo.Foundation.Machine
import Rubo.Foundation.Decoder
import Rubo.Foundation.Heap
import Rubo.Foundation.Merge
import Rubo.Foundation.Embedding
import Rubo.Foundation.LittleEndian
import Rubo.Foundation.Table
import Rubo.Foundation.Varint
import Rubo.Foundation.SizeT
import Rubo.Foundation.Pieces
import Rubo.Foundation.SqlLexer
import Rubo.Util.RingBuffSpec
import Rubo.Util.RingBuffQueue
import Rubo.Util.RingBuffDiscipline
import Rubo.Util.RingBuffWiped
import Rubo.Util.LineBuffer
import Rubo.Util.LineBufferGrowth
import Rubo.Util.SocketNode
import Rubo.Util.UserManager
import Rubo.Util.Utils
import Rubo.Util.IThread
import Rubo.Msgs.Protocol
import Rubo.Msgs.MsgCenter
import Rubo.Msgs.Framing
import Rubo.Msgs.Proto2
import Rubo.Util.SocketOp
import Rubo.Util.FaithfulRead
import Rubo.Util.StreamOrder
import Rubo.Util.TcpOp
import Rubo.Util.Outgoing
import Rubo.Util.Stranded
import Rubo.Util.ShortWrites
import Rubo.Msgs.RoundTrip
import Rubo.Msgs.Leftover
import Rubo.Msgs.WholeFrames
import Rubo.Msgs.BodyFidelity
import Rubo.Server.LogicWorker
import Rubo.Server.LogicTable
import Rubo.Server.GateWorker
import Rubo.Server.GateSteps
import Rubo.Server.GateInvariant
import Rubo.Server.SessionBracket
import Rubo.Server.GateConns
import Rubo.Server.GateWire
import Rubo.Server.UserIsolation
import Rubo.Server.Descriptors
import Rubo.Server.Gate
import Rubo.Server.GateIO
import Rubo.Server.FdSets
import Rubo.Server.Verdict
import Rubo.Server.LoginAttribution
import Rubo.Server.LogicIO
import Rubo.Server.GateIOSteps
import Rubo.Server.FirstMessage
import Rubo.Server.Buffered
import Rubo.Server.DosthReply
import Rubo.Server.LogicThreads
import Rubo.Server.LogicStream
import Rubo.Server.Presence
import Rubo.Server.LogicClosed
import Rubo.Server.Ownership
import Rubo.Server.LiveLogic
import Rubo.Server.HandOff
import Rubo.Server.FinishedConns
import Rubo.Server.LoginSql
import Rubo.Server.InitSql
import Rubo.Server.WorkerThread
import Rubo.Server.LoadTable
import Rubo.Server.LogicDirectory
import Rubo.Server.LogicOrder
import Rubo.Server.GateReturn
import Rubo.Server.Conversation
import Rubo.Foundation.Fairness
import Rubo.Util.ThreadFunc
import Rubo.Server.LogicProcess
import Rubo.Server.LogicStop
import Rubo.Server.GateStop
import Rubo.Server.ServerMain
import Rubo.Server.ServerEnd
import Rubo.Foundation.Trace
import Rubo.Foundation.Accounts
import Rubo.Server.Accounts
import Rubo.Msgs.LoginPb
import Rubo.Msgs.MessageBody
import Rubo.Foundation.FdTable
import Rubo.Util.TcpStart
import Rubo.Msgs.ProtoFiles
import Rubo.Server.StartUp
