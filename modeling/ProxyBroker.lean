import ProxyBroker.Server.RoundRobin
import ProxyBroker.Server.Selection
import ProxyBroker.Server.Commit
import ProxyBroker.Server.Hygiene
import ProxyBroker.Server.HeaderLines
import ProxyBroker.System
import ProxyBroker.Server.Effect
import ProxyBroker.Conservation
import ProxyBroker.Admission
import ProxyBroker.AuthGate
import ProxyBroker.Server.Attempts
import ProxyBroker.Verify
import ProxyBroker.Cancel
import ProxyBroker.Lib.Notify
import ProxyBroker.Wakeup
import ProxyBroker.Broker.CheckStream
import ProxyBroker.Broker.Limit
import ProxyBroker.Broker.Progress
import ProxyBroker.Broker.Order
import ProxyBroker.Lib.IpText
import ProxyBroker.Lib.Upsert
import ProxyBroker.Persist.Record
import ProxyBroker.Persist.Refine
import ProxyBroker.Persist.Load
import ProxyBroker.Persist.Retry
import ProxyBroker.Persist.Durable
import ProxyBroker.Persist.Sanity
import ProxyBroker.Scheduler.Bookkeeping
import ProxyBroker.Scheduler.Deleted
import ProxyBroker.Socks5
import ProxyBroker.ConnectHead
import ProxyBroker.Transparency
import ProxyBroker.History
import ProxyBroker.Ndjson
import ProxyBroker.Broker.Source
import ProxyBroker.Sticky
import ProxyBroker.Failover
import ProxyBroker.Rotations
import ProxyBroker.Skipping
import ProxyBroker.Latency
import ProxyBroker.Server.Blame
import ProxyBroker.Checker.Check
import ProxyBroker.Checker.Retry
import ProxyBroker.Checker.Verdict
import ProxyBroker.Lib.Precision
import ProxyBroker.Scheduler.Eviction
import ProxyBroker.Scheduler.Recheck
import ProxyBroker.Scheduler.Identity
import ProxyBroker.Server.TryGet
import ProxyBroker.Mcp
import ProxyBroker.Server.WholeHead
import ProxyBroker.Socks5Client
import ProxyBroker.Lib.Regex
import ProxyBroker.Parse
import ProxyBroker.Parse.AddrLines
import ProxyBroker.Parse.Findall
import ProxyBroker.Lib.Quantile
import ProxyBroker.Lib.Tally
import ProxyBroker.Percentile
import ProxyBroker.Stats
import ProxyBroker.Lib.Substitution
import ProxyBroker.Persist.Counters
import ProxyBroker.Render
import ProxyBroker.Server.StatusLine
import ProxyBroker.Lib.IpLiteral
import ProxyBroker.Server.Authority
import ProxyBroker.Lib.Tokens
import ProxyBroker.Utils.Addresses
import ProxyBroker.Checker.Anonymity
import ProxyBroker.Provider
import ProxyBroker.Provider.UserLines
import ProxyBroker.Checker.Request
import ProxyBroker.Parse.OneLine
import ProxyBroker.Judge
import ProxyBroker.Server.Rand
import ProxyBroker.WarmStart
import ProxyBroker.Lib.Head
import ProxyBroker.Chain
import ProxyBroker.Books
import ProxyBroker.Lib.Exposition
import ProxyBroker.Server.Metrics
import ProxyBroker.Lib.Window
import ProxyBroker.Top
import ProxyBroker.Checker.Exchange
import ProxyBroker.Lib.Table
import ProxyBroker.Export
import ProxyBroker.WatchLoop
import ProxyBroker.Find
import ProxyBroker.Session
import ProxyBroker.Scheduler.Timing
import ProxyBroker.FrontDoor
import ProxyBroker.Rotating
