import CallGuard.Balancer.Basic
import CallGuard.Balancer.Kind
import CallGuard.Breaker.Basic
import CallGuard.Breaker.Circuit
import CallGuard.Breaker.Layer
import CallGuard.Cancel.Reason
import CallGuard.Cancel.Scopes
import CallGuard.Context.Basic
import CallGuard.Context.Session
import CallGuard.Context.Timeline
import CallGuard.Decimal.Binary
import CallGuard.Decimal.Positional
import CallGuard.Decimal.Shortest
import CallGuard.Env
import CallGuard.Error
import CallGuard.Event
import CallGuard.Handler
import CallGuard.Json.Reader
import CallGuard.Json.Record
import CallGuard.Json.Token
import CallGuard.Json.Value
import CallGuard.KeyMap
import CallGuard.Labels
import CallGuard.Limiter.Basic
import CallGuard.Limiter.CellRate
import CallGuard.Limiter.Config
import CallGuard.Limiter.Decision
import CallGuard.Limiter.Layer
import CallGuard.Limiter.Quantity
import CallGuard.Limiter.Rule
import CallGuard.Limiter.SlidingWindow
import CallGuard.Limiter.Store
import CallGuard.Limiter.TokenBucket
import CallGuard.Node
import CallGuard.Pipeline.Basic
import CallGuard.Pipeline.Codec
import CallGuard.Pipeline.Config
import CallGuard.Random.Generator
import CallGuard.Random.Stream
import CallGuard.Retry.Layer
import CallGuard.Retry.Plan
import CallGuard.Selector.Basic
import CallGuard.Selector.Run
import CallGuard.Simulation.Bench
import CallGuard.Simulation.Caller
import CallGuard.Simulation.Client
import CallGuard.Simulation.Cluster
import CallGuard.Simulation.Script
import CallGuard.Simulation.Selection
import CallGuard.Simulation.Transport
import CallGuard.Text.Quoted
import CallGuard.Time.Instant
import CallGuard.Time.Seconds
import CallGuard.Time.Span
import CallGuard.Proofs.Calls.Tries
import CallGuard.Proofs.Calls.Accounting
import CallGuard.Proofs.Breaker.History
import CallGuard.Proofs.Limiter.Run
import CallGuard.Proofs.Limiter.Window
import CallGuard.Proofs.Binary.Packing
import CallGuard.Proofs.Binary.Rounding
import CallGuard.Proofs.Binary.Units
import CallGuard.Proofs.Binary.Products
import CallGuard.Proofs.Binary.Seconds
import CallGuard.Proofs.Limiter.Sweeps
import CallGuard.Proofs.Limiter.Sweeps.CellRate
import CallGuard.Proofs.Limiter.Sweeps.Window
import CallGuard.Proofs.Limiter.Patience
import CallGuard.Proofs.Cancel.Forest
import CallGuard.Proofs.Cancel.Reach
import CallGuard.Proofs.Breaker.Trials
import CallGuard.Proofs.Limiter.Pace
import CallGuard.Proofs.Limiter.Waits
import CallGuard.Proofs.Context.Race
import CallGuard.Proofs.Calls.Visits
import CallGuard.Proofs.Calls.Rounds
import CallGuard.Proofs.Calls.Plan
import CallGuard.Proofs.Calls.Cancellation
import CallGuard.Proofs.Breaker.Shield
import CallGuard.Proofs.Breaker.Coherence
import CallGuard.Proofs.Breaker.Transitions
import CallGuard.Proofs.Breaker.Recovery
import CallGuard.Proofs.Settings.Values
import CallGuard.Proofs.Settings.RoundTrip
import CallGuard.Proofs.Limiter.Eviction
import CallGuard.Proofs.Selection.Picks
import CallGuard.Proofs.Selection.Runs
import CallGuard.Proofs.Limiter.Independence
import CallGuard.Proofs.Limiter.Independence.CellRate
import CallGuard.Proofs.Context.Descent
import CallGuard.Proofs.Limiter.ExactBucket
import CallGuard.Proofs.Limiter.Overflow
import CallGuard.Proofs.Limiter.Retention
import CallGuard.Proofs.Limiter.PlainMap
import CallGuard.Proofs.Settings.Edits
import CallGuard.Proofs.Settings.Partial
import CallGuard.Proofs.Selection.Shares
import CallGuard.Proofs.Selection.Turns
import CallGuard.Proofs.Calls.Backoff
import CallGuard.Proofs.Limiter.AtOnce
import CallGuard.Proofs.Calls.Nesting
import CallGuard.Proofs.Network.Dispatch
import CallGuard.Proofs.Network.Recovery
import CallGuard.Proofs.Network.Deals
import CallGuard.Proofs.Network.Order
import CallGuard.Proofs.Network.Reproducible
