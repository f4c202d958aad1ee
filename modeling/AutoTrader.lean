import AutoTrader.Results.OneOrder
import AutoTrader.Results.Failure
import AutoTrader.Results.Closing
import AutoTrader.Results.Finality
import AutoTrader.Results.WriteAhead
import AutoTrader.Results.Serial
import AutoTrader.Results.LostReply
import AutoTrader.Results.Classification
import AutoTrader.Results.Asking
import AutoTrader.Results.FailedCommit
import AutoTrader.Results.Batches
import AutoTrader.Results.Starvation
import AutoTrader.Results.Serving
import AutoTrader.Results.Signatures
import AutoTrader.Results.Refusals
import AutoTrader.Results.Rendering
import AutoTrader.Results.Registration
import AutoTrader.Results.Paging
import AutoTrader.Results.Ownership
import AutoTrader.Results.DatabaseUrls
import AutoTrader.Results.InFlight
import AutoTrader.Results.Accounting
import AutoTrader.Results.Restart
import AutoTrader.Results.Refinement
import AutoTrader.Services.ExecutionQueue
import AutoTrader.Api.Trades
import AutoTrader.Results.Exposure
import AutoTrader.Results.OrderBook
import AutoTrader.Results.Authority
import AutoTrader.Results.LifeCycle
import AutoTrader.Results.Serialisable
import AutoTrader.Results.Draining
import AutoTrader.Results.Sessions
import AutoTrader.Results.Enrolment
import AutoTrader.Results.QueueOrder
import AutoTrader.Results.Testnet
import AutoTrader.Results.Gate
import AutoTrader.Results.Secrets
import AutoTrader.Results.Answers
import AutoTrader.Results.Owner
