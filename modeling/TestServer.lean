import TestServer.Lib.Loop
import TestServer.Lib.System
import TestServer.Lib.Progress
import TestServer.Lib.DuplexRuns
import TestServer.Lib.DescriptorTable
import TestServer.Lib.PrefixCode
import TestServer.Lib.LengthPrefixed
import TestServer.Rpc.RoundTrip
import TestServer.Rpc.LegalHeaders
import TestServer.Echo.EdgeTriggered
import TestServer.Echo.Reply
import TestServer.Echo.Lifecycle
import TestServer.Accept.OwnThread
import TestServer.Rpc.Confinement
import TestServer.Receiver.Malformed
import TestServer.Receiver.Reassembly
import TestServer.Receiver.Received
import TestServer.Receiver.LongMessage
import TestServer.Transfer.Writen
import TestServer.Transfer.Readn
import TestServer.Transfer.AppendFile
import TestServer.Transfer.Pipe
import TestServer.Transfer.Progress
import TestServer.Receiver.Strings
import TestServer.SocketBasic.Write
import TestServer.SocketBasic.Read
import TestServer.SocketBasic.AnyBytes
import TestServer.SocketBasic.RoundTrip
import TestServer.SocketBasic.ShortRead
import TestServer.SocketBasic.Single
import TestServer.SocketBasic.Session
import TestServer.Select.Table
import TestServer.Select.SelectAccept
import TestServer.Select.Watched
import TestServer.Select.Service
import TestServer.Select.Failed
import TestServer.Select.RealOnly
import TestServer.Select.BoundedSet
import TestServer.Client.Release
import TestServer.Client.LatePoll
import TestServer.Accept.ProcessAccept
import TestServer.Accept.Balanced
import TestServer.Accept.HandOver
import TestServer.Deamon.Processes
import TestServer.Deamon.Detached
import TestServer.Sockets.OneAccept
import TestServer.SocketBasic.Suite
