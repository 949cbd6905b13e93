import OracleMachine.Lib.Transition
import OracleMachine.Lib.Bytes
import OracleMachine.Lib.Loop
import OracleMachine.Network.Wire
import OracleMachine.Network.Session
import OracleMachine.Network.Framing
import OracleMachine.Node.NodeConnection
import OracleMachine.Services.BaseOracleService
import OracleMachine.Node.InterfaceClient
import OracleMachine.Node.QueryCallbacks
import OracleMachine.Lib.TimedMap
import OracleMachine.Node.OracleCache
import OracleMachine.Node.RequestHandler
import OracleMachine.Lib.Decimal
import OracleMachine.Price.Rational
import OracleMachine.Price.Exchange
import OracleMachine.Price.Providers
import OracleMachine.Lib.Agreement
import OracleMachine.Lib.Python
import OracleMachine.Logs.EvmLog
import OracleMachine.Logs.Identity
import OracleMachine.Logs.QubicLog
import OracleMachine.Logs.Reproducible
import OracleMachine.Logs.EndpointOrder
import OracleMachine.Logs.Serve
import OracleMachine.Lib.Text
import OracleMachine.Node.Whitelist
import OracleMachine.Node.Relay
import OracleMachine.Lib.TtlMap
import OracleMachine.Node.CacheRefinement
import OracleMachine.Lib.Ownership
import OracleMachine.Lib.Entries
import OracleMachine.Network.TcpServer.Bookkeeping
import OracleMachine.Node.RequestDelivery
import OracleMachine.Lib.Ranges
import OracleMachine.Services.DogeService
import OracleMachine.Node.Segmentation
import OracleMachine.Lib.Merkle
import OracleMachine.Services.DogeVerdict
import OracleMachine.Price.WorkingRange
import OracleMachine.Lib.Calendar
import OracleMachine.Price.CandleChoice
import OracleMachine.Price.PriceService
import OracleMachine.Price.Klines
import OracleMachine.Price.CacheTransparency
import OracleMachine.Lib.Url
import OracleMachine.Price.KlineUrl
import OracleMachine.Network.Recording
import OracleMachine.Node.Retries
import OracleMachine.Node.AtMostOnce
import OracleMachine.Node.CacheCapacity
import OracleMachine.Lib.Bits
import OracleMachine.Lib.Keccak
import OracleMachine.Logs.KangarooTwelve
import OracleMachine.Logs.Replies
import OracleMachine.Price.Mean
import OracleMachine.Price.Registration
import OracleMachine.Price.RequestSpacing
import OracleMachine.Lib.Ledger
import OracleMachine.Network.SessionObjects
import OracleMachine.Lib.Blocks
import OracleMachine.Lib.Memory
import OracleMachine.Lib.Sha256
import OracleMachine.Services.Scrypt.Sha256
import OracleMachine.Services.Scrypt.Streaming
import OracleMachine.Lib.Pbkdf2
import OracleMachine.Services.Scrypt.Hmac
import OracleMachine.Lib.Scrypt
import OracleMachine.Services.Scrypt.Salsa
import OracleMachine.Services.Scrypt.Smix
import OracleMachine.Services.Scrypt.KeyDerivation
import OracleMachine.Services.DogeProofOfWork
import OracleMachine.Lib.Progress
import OracleMachine.Network.TcpServer.Moves
import OracleMachine.Network.TcpServer.Shutdown
import OracleMachine.Lib.Mutex
import OracleMachine.Lib.Simulation
import OracleMachine.Node.QueueMonitor
import OracleMachine.Node.QueueRefinement
import OracleMachine.Node.QueueLiveness

