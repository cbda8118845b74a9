import DistributedFileServer.Model.Run
import DistributedFileServer.DeferredUpdate.History
import DistributedFileServer.Log.TableHistory
import DistributedFileServer.Log.Serving
import DistributedFileServer.DeferredUpdate.PrivateWorkspace
import DistributedFileServer.Transactions.Refinement
import DistributedFileServer.Transactions.Noninterference
import DistributedFileServer.Transactions.Commutation
import DistributedFileServer.DeferredUpdate.Discipline
import DistributedFileServer.Transactions.Decisions
import DistributedFileServer.Transactions.Votes
import DistributedFileServer.DeferredUpdate.Protocol
import DistributedFileServer.Transactions.Serializability
import DistributedFileServer.Log.RedoLog
import DistributedFileServer.Transactions.Verdicts
import DistributedFileServer.Transactions.Recovery
import DistributedFileServer.Model.DaoCalls
import DistributedFileServer.Failures.DaoSpecs
import DistributedFileServer.Failures.Reliable
import DistributedFileServer.Failures.Atomicity
import DistributedFileServer.Failures.Durability
import DistributedFileServer.Model.Locate
import DistributedFileServer.Filenames.Confinement
import DistributedFileServer.Filenames.Answers
import DistributedFileServer.Filenames.Spellings
import DistributedFileServer.Filenames.StoredText
import DistributedFileServer.Framing.Decimal
import DistributedFileServer.Model.Server
import DistributedFileServer.Wire.Header
import DistributedFileServer.Wire.Responses
import DistributedFileServer.Model.Console
import DistributedFileServer.Transactions.ManualVotes
import DistributedFileServer.Wire.Requests
import DistributedFileServer.Failures.Handles
import DistributedFileServer.Framing.LineEnds
import DistributedFileServer.Model.TextStreams
import DistributedFileServer.Failures.CommittedContent
import DistributedFileServer.DeferredUpdate.Stuttering
import DistributedFileServer.Failures.Retries
import DistributedFileServer.Failures.InDoubt
import DistributedFileServer.Sql.Select
import DistributedFileServer.Sql.ScanOrder
import DistributedFileServer.Model.Statements
import DistributedFileServer.Log.Selected
import DistributedFileServer.DeferredUpdate.Removal
import DistributedFileServer.Transactions.Onlookers
import DistributedFileServer.Transactions.ManualRuns
import DistributedFileServer.Wire.Framed
import DistributedFileServer.Wire.Connections
import DistributedFileServer.Model.Startup
import DistributedFileServer.Failures.Sessions
import DistributedFileServer.Failures.OpenHandles
import DistributedFileServer.Wire.Refinement
import DistributedFileServer.Programs.Simulation
import DistributedFileServer.Failures.TextRuns
import DistributedFileServer.DeferredUpdate.Thinning
import DistributedFileServer.Transactions.Spared
import DistributedFileServer.Failures.Restarts
