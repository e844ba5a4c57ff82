import RunnerFleet.CommandLine.Disk
import RunnerFleet.Main
import RunnerFleet.Proofs.Configuration.DurationText
import RunnerFleet.Proofs.Configuration.Resolution
import RunnerFleet.Proofs.Configuration.RoundTrip
import RunnerFleet.Proofs.Decision.Exact
import RunnerFleet.Proofs.Decision.NoFlapping
import RunnerFleet.Proofs.Decision.Overcount
import RunnerFleet.Proofs.Evaluation.FreshDemand
import RunnerFleet.Proofs.Operator.Identity
import RunnerFleet.Proofs.Operator.Pruning
import RunnerFleet.Proofs.Operator.ReservedCapacity
import RunnerFleet.Proofs.Operator.StatusReport
import RunnerFleet.Proofs.Operator.Tenure
import RunnerFleet.Proofs.Reconcile.Accounting
import RunnerFleet.Proofs.Reconcile.AnyOrder
import RunnerFleet.Proofs.Reconcile.Backoff
import RunnerFleet.Proofs.Reconcile.Convergence
import RunnerFleet.Proofs.Reconcile.Settled
import RunnerFleet.Proofs.Reconcile.Traffic
import RunnerFleet.Proofs.Reconcile.WithinBounds
import RunnerFleet.Proofs.Resource.Evolution
import RunnerFleet.Proofs.Store.EventLog
import RunnerFleet.Proofs.Store.EventScope
import RunnerFleet.Proofs.Store.Listing
import RunnerFleet.Proofs.Store.StaleWrite
import RunnerFleet.Scenario
