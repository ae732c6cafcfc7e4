import StakePool.Main
import StakePool.Scenario
import StakePool.AdminRequest
import StakePool.Store.Memory
import StakePool.Ring.Lemmas
import StakePool.Proofs.Codec.RoundTrip
import StakePool.Proofs.Ring.Polling
import StakePool.Proofs.Basket.Trading
import StakePool.Proofs.Checksum
import StakePool.Proofs.Store.Mirror
import StakePool.Proofs.Store.Queues
import StakePool.Proofs.Store.Listing
import StakePool.Proofs.Codec.Plain
import StakePool.Proofs.RewardEvent
import StakePool.Proofs.Codec.Checks
import StakePool.Proofs.Accounts
import StakePool.Proofs.Codec.Truncation
import StakePool.Proofs.AdminRequest
import StakePool.Proofs.Ring.Guarded
import StakePool.Proofs.Ring.Stale
import StakePool.Proofs.Ring.Append
import StakePool.Proofs.Basket.Splitting
import StakePool.Proofs.Store.Append
import StakePool.Proofs.Basket.Rounding
import StakePool.Proofs.Report.Basket
import StakePool.Proofs.Report.Events
import StakePool.Proofs.Report.Accounts
import StakePool.Proofs.Codec.Agreement
import StakePool.Proofs.Codec.Counted
import StakePool.Proofs.Codec.Steps
import StakePool.Proofs.Text.Json
import StakePool.Proofs.Report.Listing
import StakePool.Proofs.Codec.Declared
