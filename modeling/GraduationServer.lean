import GraduationServer.Foundations.QuotedText
import GraduationServer.Codec.RoundTrip
import GraduationServer.Codec.Safety
import GraduationServer.Json.ReaderBounds
import GraduationServer.Client.Boundaries
import GraduationServer.Client.Listed
import GraduationServer.Client.Accounts
import GraduationServer.Users.Served
import GraduationServer.Client.Favourites
import GraduationServer.Foundations.Search
import GraduationServer.File.Streams
import GraduationServer.File.Received
import GraduationServer.File.Responses
import GraduationServer.File.Containment
import GraduationServer.File.Served
import GraduationServer.Foundations.Registry
import GraduationServer.Foundations.Frames
import GraduationServer.Codec.Frames
import GraduationServer.Users.Ids
import GraduationServer.Servers.Sessions
import GraduationServer.Servers.Routing
import GraduationServer.Servers.Handles
import GraduationServer.File.Safety
import GraduationServer.Database.Connection
import GraduationServer.Client.Malformed
import GraduationServer.Client.MsgCache
import GraduationServer.Client.Delimited
import GraduationServer.Client.Similarity
import GraduationServer.Client.TableIds
import GraduationServer.Database.Repair
import GraduationServer.Database.Affected
import GraduationServer.Users.Atomic
import GraduationServer.Users.Joins
import GraduationServer.File.Transport
import GraduationServer.File.Offset
import GraduationServer.Codec.WriterRuns
import GraduationServer.Codec.Int32
import GraduationServer.Codec.Resend
import GraduationServer.File.Bodies
import GraduationServer.File.RequestLine
import GraduationServer.File.Ranges
import GraduationServer.File.Conversion
import GraduationServer.Net.BufferRuns
import GraduationServer.Net.TcpServer
import GraduationServer.Net.TimerLives
import GraduationServer.Net.EventLoop
import GraduationServer.Net.Pollers
import GraduationServer.Client.Wire
import GraduationServer.Servers.Published
import GraduationServer.Servers.Downloads
import GraduationServer.Servers.Durable
import GraduationServer.Client.Requests
