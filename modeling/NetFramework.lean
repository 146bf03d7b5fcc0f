import NetFramework.Library.Transition
import NetFramework.Library.Framing
import NetFramework.Library.Bracket
import NetFramework.Library.Decimal
import NetFramework.Library.Mailbox
import NetFramework.Library.Registry
import NetFramework.Library.Lifecycle
import NetFramework.Library.Loop
import NetFramework.Library.Scan
import NetFramework.Library.Cursor
import NetFramework.Library.SuffixCode
import NetFramework.Library.Product
import NetFramework.Library.Progress
import NetFramework.CoreProto
import NetFramework.FrameLaws
import NetFramework.FrameGrammar
import NetFramework.Session
import NetFramework.SessionRead
import NetFramework.SessionBuffer
import NetFramework.Connection
import NetFramework.SessionWrite
import NetFramework.SessionLife
import NetFramework.NetBase
import NetFramework.ClientNet
import NetFramework.ClientConnection
import NetFramework.ConnectionOutput
import NetFramework.CallbackProtocol
import NetFramework.SelectServer
import NetFramework.ServerTable
import NetFramework.ServerOutput
import NetFramework.SelectIteration
import NetFramework.SelectCallbacks
import NetFramework.PollServer
import NetFramework.PollCallbacks
import NetFramework.PollTable
import NetFramework.PollOutput
import NetFramework.ServerCallbacks
import NetFramework.ServerTraffic
import NetFramework.FramedServer
import NetFramework.Token
import NetFramework.Serialisation
import NetFramework.SequenceLoop
import NetFramework.DecodeBounds
import NetFramework.RoundTrip
import NetFramework.BracketTokens
import NetFramework.Arguments
import NetFramework.StringTokens
import NetFramework.Substitution
import NetFramework.ConstHelpers
import NetFramework.LiteralSearch
import NetFramework.RemoteCall
import NetFramework.TypeSpelling
import NetFramework.DecodeTarget
import NetFramework.HandlerManager
import NetFramework.HandlerContext
import NetFramework.FormatUnique
import NetFramework.PacketDispatch
import NetFramework.WorkerThread
import NetFramework.ThreadedClass
import NetFramework.WorkerExit
import NetFramework.AnswerRouting
import NetFramework.NetServer
import NetFramework.ObjectCalls
import NetFramework.ObjectProgress
import NetFramework.NetServerRun
import NetFramework.RequestPath
import NetFramework.LargeRequest
import NetFramework.PreparedStatement
import NetFramework.StatementReuse
import NetFramework.StatementParams
import NetFramework.StatementValue
import NetFramework.StatementQuery
import NetFramework.DatabaseSession
import NetFramework.ClientConnect
import NetFramework.LogFormat
import NetFramework.LogHeader
import NetFramework.LogFile
