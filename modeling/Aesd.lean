import Aesd.Lib.Lts
import Aesd.Driver.Queue
import Aesd.Driver.Device
import Aesd.Driver.WritePath
import Aesd.Driver.History
import Aesd.Driver.Ledger
import Aesd.Driver.Framing
import Aesd.Driver.Kmalloc
import Aesd.Lib.Concat
import Aesd.Driver.Fileops
import Aesd.Driver.ReadPath
import Aesd.Driver.Lookup
import Aesd.Lib.Cursor
import Aesd.Driver.Reading
import Aesd.Driver.Seeking
import Aesd.Driver.OpenFiles
import Aesd.Driver.Streaming
import Aesd.Driver.Positions
import Aesd.Lib.Monitor
import Aesd.Driver.Statements
import Aesd.Driver.Concurrent
import Aesd.Driver.Module
import Aesd.Server.Sscanf
import Aesd.Server.HandleClient
import Aesd.Server.SocketOps
import Aesd.Server.Resources
import Aesd.Server.Service
import Aesd.Lib.Selection
import Aesd.Lib.Sources
import Aesd.Server.Provenance
import Aesd.Server.Session
import Aesd.Server.Response
import Aesd.Server.Snapshot
import Aesd.Server.Backend
import Aesd.Server.FileBackend
import Aesd.Server.Stream
import Aesd.Server.SeekLine
import Aesd.Server.SeekRequest
import Aesd.Server.Process
import Aesd.Server.Signals
import Aesd.Server.Deadlock
import Aesd.Server.Release
import Aesd.Server.Frames
import Aesd.Server.Orphans
import Aesd.Server.FileMutex
import Aesd.Lib.Progress
import Aesd.Server.Shutdown
import Aesd.Lib.Table
import Aesd.Server.Descriptors
import Aesd.Server.ThreadData
import Aesd.Server.Connections
import Aesd.Lib.Guarded
import Aesd.Server.Timestamp
import Aesd.Server.FileResponse
import Aesd.Server.Transmission
import Aesd.Lib.LinkedList
import Aesd.Server.ThreadList
import Aesd.Server.ThreadRuns
