import FirecrawlLb.Lib.Run
import FirecrawlLb.Lib.Tasks
import FirecrawlLb.Lib.Dict
import FirecrawlLb.Lib.Spend
import FirecrawlLb.Lib.Epochs
import FirecrawlLb.Firecrawl.Selection
import FirecrawlLb.Firecrawl.Selectable
import FirecrawlLb.Firecrawl.Weights
import FirecrawlLb.Firecrawl.ErrorMessages
import FirecrawlLb.Firecrawl.Concurrency
import FirecrawlLb.Firecrawl.RateLimit
import FirecrawlLb.Firecrawl.Sign
import FirecrawlLb.Firecrawl.Ledger
import FirecrawlLb.Firecrawl.Reservations
import FirecrawlLb.Firecrawl.RefreshPass
import FirecrawlLb.Firecrawl.Ownership
import FirecrawlLb.Firecrawl.Delivery
import FirecrawlLb.Firecrawl.Timestamps
import FirecrawlLb.Firecrawl.AdminService
import FirecrawlLb.Firecrawl.EstimateOrder
import FirecrawlLb.Firecrawl.AnswerReaders
import FirecrawlLb.Firecrawl.Finished
import FirecrawlLb.Firecrawl.Exhausted
import FirecrawlLb.Firecrawl.Overview
import FirecrawlLb.Firecrawl.Paging
import FirecrawlLb.Firecrawl.OperatorUpdates
import FirecrawlLb.Firecrawl.Forwarding
import FirecrawlLb.DashboardAuth.RemoteSetup
import FirecrawlLb.DashboardAuth.TotpReplay
import FirecrawlLb.DashboardAuth.Consistency
import FirecrawlLb.DashboardAuth.BootstrapToken
import FirecrawlLb.Core.RateLimiter
import FirecrawlLb.Core.RetryAfter
import FirecrawlLb.Core.ForwardedChain
import FirecrawlLb.Core.LeaderElection
import FirecrawlLb.Core.Admission
import FirecrawlLb.Core.Recovery
import FirecrawlLb.Core.CachedSettings
import FirecrawlLb.Core.CrossReplica
import FirecrawlLb.Core.Crypto
import FirecrawlLb.Core.RequestDecompression
import FirecrawlLb.Core.TruncatedBodies
import FirecrawlLb.Db.Backup
import FirecrawlLb.Core.TotpScan
import FirecrawlLb.DashboardAuth.Sessions
import FirecrawlLb.Core.Draining
import FirecrawlLb.Core.RetryBudget
import FirecrawlLb.Runtime.SemVer
import FirecrawlLb.Scripts.Bump
import FirecrawlLb.Firewall.Allowlist
import FirecrawlLb.DashboardAuth.SessionRuns
import FirecrawlLb.Runtime.Service
import FirecrawlLb.Firecrawl.Keys
import FirecrawlLb.Firecrawl.Journal
import FirecrawlLb.DashboardAuth.Guesses
import FirecrawlLb.Core.DecodedRequests
import FirecrawlLb.DashboardAuth.SecondFactor
import FirecrawlLb.Scripts.BetaTags
