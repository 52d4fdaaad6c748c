import DgMiddleware.Library.Method
import DgMiddleware.Library.Triple
import DgMiddleware.Library.Run
import DgMiddleware.Library.Simulation
import DgMiddleware.Library.Ring
import DgMiddleware.Library.Increasing
import DgMiddleware.Library.Container
import DgMiddleware.Library.InputStream
import DgMiddleware.Library.Lines
import DgMiddleware.Library.Cursor
import DgMiddleware.Library.Naming
import DgMiddleware.Server.DataStack
import DgMiddleware.Server.State
import DgMiddleware.Server.Creation
import DgMiddleware.Server.Buffering
import DgMiddleware.Server.Reading
import DgMiddleware.Server.Operations
import DgMiddleware.Server.RankRegistry
import DgMiddleware.Server.Stacks
import DgMiddleware.Server.RingLog
import DgMiddleware.Server.IndexSafety
import DgMiddleware.Server.Replies
import DgMiddleware.Server.Provenance
import DgMiddleware.Server.Dimensions
import DgMiddleware.Server.Registration
import DgMiddleware.Server.BufferCommand
import DgMiddleware.Server.BatchRead
import DgMiddleware.Server.SynchroAtomicity
import DgMiddleware.Server.OutputWrites
import DgMiddleware.Server.Store
import DgMiddleware.Server.Refinement
import DgMiddleware.Server.Chronology
import DgMiddleware.Server.Commands
import DgMiddleware.Server.Requests
import DgMiddleware.Server.Notification
import DgMiddleware.Server.Delivery
import DgMiddleware.Server.DeliveryOrder
import DgMiddleware.Server.Sessions
import DgMiddleware.Server.Ping
import DgMiddleware.Server.ClientList
import DgMiddleware.Corba.Process
import DgMiddleware.Corba.GenericServer
import DgMiddleware.Corba.ServerAbstract
import DgMiddleware.Corba.Initialisation
import DgMiddleware.Corba.Activation
import DgMiddleware.Corba.Lifecycle
import DgMiddleware.Corba.Servants
import DgMiddleware.Corba.Lifetimes
import DgMiddleware.Corba.ContextArgument
import DgMiddleware.Corba.Lookup
import DgMiddleware.Corba.Shutdown
import DgMiddleware.Corba.Publication
import DgMiddleware.Corba.SoloServer
import DgMiddleware.Corba.WaitFree
import DgMiddleware.Coshell.Client
import DgMiddleware.Coshell.Submission
import DgMiddleware.Coshell.Registration
import DgMiddleware.Coshell.Unwinding
import DgMiddleware.Coshell.Transcript
import DgMiddleware.Coshell.Rebinding
import DgMiddleware.DistantShell.Script
import DgMiddleware.DistantShell.Draining
import DgMiddleware.DistantShell.Threads
import DgMiddleware.DistantShell.Plugin
import DgMiddleware.DistantShell.Destruction
