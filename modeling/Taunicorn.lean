import Taunicorn.Lib.BigEndian
import Taunicorn.Lib.StreamProgram
import Taunicorn.Lib.Duplex
import Taunicorn.Lib.Conversation
import Taunicorn.Lib.Machine
import Taunicorn.Lib.FifoMutex
import Taunicorn.Lib.Channel
import Taunicorn.Lib.Handoff
import Taunicorn.Lib.Pool
import Taunicorn.Lib.Blame
import Taunicorn.Lib.Words
import Taunicorn.Basic
import Taunicorn.Transport.Core
import Taunicorn.Transport.Calls
import Taunicorn.Transport.Order
import Taunicorn.Transport.Wire
import Taunicorn.Transport.Closing
import Taunicorn.Transport.Shutdown
import Taunicorn.Transport.AfterClose
import Taunicorn.Transport.Interrupt
import Taunicorn.Transport.Reads
import Taunicorn.Transport.Timeout
import Taunicorn.Transport.Deadline
import Taunicorn.Transport.Directions
import Taunicorn.Transport.Server
import Taunicorn.Transport.Paused
import Taunicorn.Transport.Snapshot
import Taunicorn.Transport.Establish
import Taunicorn.Transport.ReadTimeout
import Taunicorn.Transport.Causes
import Taunicorn.Transport.Link
import Taunicorn.Transport.Tasks
import Taunicorn.Transport.Calm
import Taunicorn.Transport.WhilePaused
import Taunicorn.Transport.Progress
import Taunicorn.Transport.InOrder
import Taunicorn.Transport.Accepting
import Taunicorn.Security.Wire
import Taunicorn.Security.Crypto
import Taunicorn.Security.Framing
import Taunicorn.Security.SecureConnection
import Taunicorn.Security.Delivery
import Taunicorn.Security.Integrity
import Taunicorn.Security.Handshake
import Taunicorn.Security.Grammar
import Taunicorn.Security.Rejection
import Taunicorn.Security.Codecs
import Taunicorn.Security.HonestRun
import Taunicorn.Security.Agreement
import Taunicorn.Security.Settlement
import Taunicorn.Security.Arrival
import Taunicorn.Security.Typed
import Taunicorn.Security.Dialogue
import Taunicorn.Security.Sender
import Taunicorn.Security.SenderOrder
import Taunicorn.Security.WireImage
import Taunicorn.Security.Nonces
import Taunicorn.Python.Writes
import Taunicorn.Python.Cleanup
import Taunicorn.Python.Ownership
import Taunicorn.Python.Upgrades
import Taunicorn.Python.Queue
import Taunicorn.Python.Waking
import Taunicorn.Python.Recv
import Taunicorn.Python.Session
import Taunicorn.Python.Terminal
import Taunicorn.Python.Gaps
import Taunicorn.Python.Errors
