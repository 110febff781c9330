import DrgbServer.Lib.Procedure
import DrgbServer.Lib.Transition
import DrgbServer.Lib.Simulation
import DrgbServer.Lib.History
import DrgbServer.Lib.BiTable
import DrgbServer.Lib.Redis
import DrgbServer.Lib.RedisClients
import DrgbServer.Network.MyClientSocket
import DrgbServer.Lib.Incremental
import DrgbServer.Lib.OrderedSet
import DrgbServer.Lib.Pairing
import DrgbServer.Utils.MyTypes
import DrgbServer.Utils.PacketProcessor
import DrgbServer.Utils.Framing
import DrgbServer.Utils.Chunking
import DrgbServer.Utils.ByteQueue
import DrgbServer.Utils.DeMap
import DrgbServer.Utils.DeMapTable
import DrgbServer.Utils.Encoder
import DrgbServer.Redis.MyRedis
import DrgbServer.Redis.SessionTable
import DrgbServer.Redis.Sharing
import DrgbServer.Redis.Conditional
import DrgbServer.Battle.MyGame
import DrgbServer.Battle.MyBattle
import DrgbServer.Battle.MatchTransfer
import DrgbServer.Battle.ClientProcess
import DrgbServer.Battle.GameProcess
import DrgbServer.Battle.LifeCycle
import DrgbServer.Battle.GameEnd
import DrgbServer.Battle.Round
import DrgbServer.Battle.Fairness
import DrgbServer.Battle.GameOver
import DrgbServer.Battle.History
import DrgbServer.Match.MyMatchMaker
import DrgbServer.Match.Queueing
import DrgbServer.Match.MatchRound
import DrgbServer.Match.OptimalRound
import DrgbServer.Match.MatchServiceServer
import DrgbServer.Match.Attribution
import DrgbServer.Match.Streams
import DrgbServer.Match.UsageStream
import DrgbServer.Match.Hosting
import DrgbServer.Match.MyMatch
import DrgbServer.Match.Sessions
import DrgbServer.Match.Cleanup
import DrgbServer.Match.DuplicatedAccess
import DrgbServer.Match.Retry
import DrgbServer.Auth.MyAuth
import DrgbServer.Auth.SessionCheck
import DrgbServer.Network.MyServerSocket
import DrgbServer.Network.StartRecv
import DrgbServer.Network.SendQueue
import DrgbServer.Network.SecureChannel
import DrgbServer.Network.Delivery
import DrgbServer.Network.Clients
import DrgbServer.Match.Coherence
import DrgbServer.Postgres.MyPostgresPool
import DrgbServer.Match.MatchMake
import DrgbServer.Match.Waiting
import DrgbServer.Match.Widening
import DrgbServer.Postgres.MyPostgres
import DrgbServer.Postgres.Achievements
import DrgbServer.Postgres.Credentials
import DrgbServer.TestStress.TestClient
import DrgbServer.TestStress.Packets
import DrgbServer.Postgres.BattleLog
import DrgbServer.Battle.Seats
import DrgbServer.Battle.Records
import DrgbServer.Auth.Replies
import DrgbServer.Match.Registration
import DrgbServer.Network.Transmission
import DrgbServer.Network.Timeouts
import DrgbServer.Lib.Tape
import DrgbServer.Match.LeastUsage
import DrgbServer.Utils.Base64
import DrgbServer.Lib.Counting
import DrgbServer.Utils.Fields
import DrgbServer.Lib.Pattern
import DrgbServer.Utils.Unescape
import DrgbServer.Auth.ServerName
import DrgbServer.Utils.Bulk
import DrgbServer.Utils.Prepend
import DrgbServer.Utils.ReadPointer
import DrgbServer.Utils.ConfigParser
import DrgbServer.Utils.ConfigFile
import DrgbServer.Lib.RedisReplies
import DrgbServer.Redis.Provenance
import DrgbServer.Servers.Handlers
import DrgbServer.Servers.Identity
import DrgbServer.Servers.KeepAlive
import DrgbServer.Lib.Monitor
import DrgbServer.Threads.ThreadExceptHandler
import DrgbServer.Battle.Hall
import DrgbServer.Battle.Load
import DrgbServer.Manager.Commands
import DrgbServer.Manager.Shell
import DrgbServer.Lib.ReadCommitted
import DrgbServer.Postgres.Overlapping
import DrgbServer.Postgres.Announcements
import DrgbServer.Servers.Visitor
