import KeycapRoot.Lib.LittleEndian
import KeycapRoot.Lib.BigEndian
import KeycapRoot.Lib.Decimal
import KeycapRoot.Lib.Hexadecimal
import KeycapRoot.Lib.OutputStream
import KeycapRoot.Lib.Rows
import KeycapRoot.Lib.Fields
import KeycapRoot.Lib.Outcome
import KeycapRoot.Lib.Keystream
import KeycapRoot.Lib.Alternation
import KeycapRoot.Lib.Rc4
import KeycapRoot.Lib.Rc4Cycles
import KeycapRoot.Lib.Refinement
import KeycapRoot.Lib.Runs
import KeycapRoot.Lib.ShiftRegister
import KeycapRoot.Network.MemoryStream
import KeycapRoot.Network.ByteQueue
import KeycapRoot.Utility.BurstErrors
import KeycapRoot.Utility.Crc32
import KeycapRoot.Utility.String
import KeycapRoot.Utility.HexString
import KeycapRoot.Utility.HexDump
import KeycapRoot.Utility.Schedule
import KeycapRoot.Utility.PostedCallbacks
import KeycapRoot.Utility.Enum
import KeycapRoot.Utility.EnumDeclaration
import KeycapRoot.Utility.EnumText
import KeycapRoot.Utility.EnumLiterals
import KeycapRoot.Utility.EnumNames
import KeycapRoot.Utility.EnumTables
import KeycapRoot.Utility.EnumConsistency
import KeycapRoot.Utility.EnumFlags
import KeycapRoot.Network.RegisteredMessage
import KeycapRoot.Network.BoundedReads
import KeycapRoot.Network.FrameBoundaries
import KeycapRoot.Network.PositionArithmetic
import KeycapRoot.Network.ForwardedPayload
import KeycapRoot.Network.ServiceConnection
import KeycapRoot.Network.Reassembly
import KeycapRoot.Network.ServiceLocator
import KeycapRoot.Network.DamagedFrames
import KeycapRoot.Network.FrameLengths
import KeycapRoot.Network.AnswerDelivery
import KeycapRoot.Network.PendingRequests
import KeycapRoot.Network.ServiceIsolation
import KeycapRoot.Network.RequestDispatch
import KeycapRoot.Network.Exchange
import KeycapRoot.Network.RequestRuns
import KeycapRoot.Network.DataRouter
import KeycapRoot.Network.Routing
import KeycapRoot.Network.HandlerIdentity
import KeycapRoot.Network.Connection
import KeycapRoot.Network.EndToEnd
import KeycapRoot.Network.Outbound
import KeycapRoot.Network.LinkEvents
import KeycapRoot.Network.ThreadPool
import KeycapRoot.Network.ThrowingHandlers
import KeycapRoot.Network.Release
import KeycapRoot.Network.AcceptLoop
import KeycapRoot.Network.Reconnect
import KeycapRoot.Network.LocateFailure
import KeycapRoot.Network.LocatedCallbacks
import KeycapRoot.Compression.Zlib
import KeycapRoot.Compression.Zip
import KeycapRoot.Compression.Termination
import KeycapRoot.Network.Decompress
import KeycapRoot.Network.Srp6.Botan
import KeycapRoot.Network.Srp6.Utility
import KeycapRoot.Network.Srp6.KeyAgreement
import KeycapRoot.Network.Srp6.GroupParameters
import KeycapRoot.Network.Srp6.Digests
import KeycapRoot.Network.Srp6.Credentials
import KeycapRoot.Network.Srp6.SecretRange
import KeycapRoot.Network.Srp6.Interleave
import KeycapRoot.Network.Srp6.ProofEncoding
import KeycapRoot.Network.Srp6.Login
import KeycapRoot.Network.Srp6.HashedMessages
import KeycapRoot.Network.Srp6.FixedWidth
import KeycapRoot.Cryptography.ARC4
import KeycapRoot.Cryptography.Mac
import KeycapRoot.Cryptography.OTP
import KeycapRoot.Cryptography.Validation
import KeycapRoot.Cryptography.ClockSkew
import KeycapRoot.Cryptography.TextbookRc4
import KeycapRoot.Cryptography.KeystreamCycles
import KeycapRoot.Cryptography.BlockPermutation
import KeycapRoot.Configuration.ConfigFile
import KeycapRoot.Configuration.IterateArray
