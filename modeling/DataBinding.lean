import DataBinding.Script.Run
import DataBinding.Written.Record
import DataBinding.Proofs.Quiet.Tracking
import DataBinding.Proofs.Quiet.Lagging
import DataBinding.Proofs.Reentrant.Coherence
import DataBinding.Proofs.TwoWay.Activation
import DataBinding.Proofs.Disposal.Ownership
import DataBinding.Proofs.Disposal.Sound
import DataBinding.Proofs.Disposal.Ground
import DataBinding.Proofs.Disposal.Steps
import DataBinding.Proofs.Disposal.Arrivals
import DataBinding.Proofs.Disposal.Accounts
import DataBinding.Proofs.Disposal.Runs
import DataBinding.Proofs.Disposal.Released
import DataBinding.Proofs.Disposal.Undoing
import DataBinding.Proofs.Disposal.Owing
import DataBinding.Proofs.Machine.Panics
import DataBinding.Proofs.Disposal.Silence
import DataBinding.Proofs.Disposal.Between
import DataBinding.Proofs.Heap.Tapped
import DataBinding.Proofs.TwoWay.Effects
import DataBinding.Proofs.TwoWay.NoEcho
import DataBinding.Proofs.TwoWay.Queued
import DataBinding.Proofs.Feed.Links
import DataBinding.Proofs.Feed.Net
import DataBinding.Proofs.Feed.Tell
import DataBinding.Proofs.Feed.Combined
import DataBinding.Proofs.Feed.OneWay
import DataBinding.Proofs.Generation.Dispatching
import DataBinding.Proofs.Supply.Parameters
import DataBinding.Proofs.Flatten.Merged
import DataBinding.Proofs.Tagged.Changes
import DataBinding.Proofs.Generation.Deletion
import DataBinding.Proofs.Supply.Requests
import DataBinding.Proofs.Beside.Sessions
import DataBinding.Proofs.Wrapped.Plans
import DataBinding.Proofs.Naming.Sites
import DataBinding.Proofs.Generation.Lookups
import DataBinding.Proofs.Matching.Positional
import DataBinding.Proofs.Naming.Weights
import DataBinding.Proofs.Record.RoundTrip
import DataBinding.Proofs.Course.Spots
import DataBinding.Proofs.Course.Passage
import DataBinding.Proofs.Course.Continues
import DataBinding.Proofs.Course.Lane
import DataBinding.Proofs.Linear.Delivered
import DataBinding.Proofs.Joined.Emissions
import DataBinding.Proofs.Joined.Delivered
import DataBinding.Proofs.Deferred.Tasks
import DataBinding.Proofs.Deferred.Relayed
import DataBinding.Proofs.Deferred.Delivered
import DataBinding.Proofs.Newest.Boards
import DataBinding.Proofs.Newest.Stories
import DataBinding.Proofs.Newest.Turns
import DataBinding.Proofs.Newest.Delivered
import DataBinding.Proofs.Course.FirstValue
import DataBinding.Proofs.Announced.Rounds
import DataBinding.Proofs.Announced.Changes
import DataBinding.Proofs.Announced.Repeated
import DataBinding.Proofs.Composite.Copies
import DataBinding.Proofs.Composite.Disposed
import DataBinding.Proofs.Machine.Lasting
import DataBinding.Proofs.Chain.Yields
import DataBinding.Proofs.Announced.Paths
import DataBinding.Proofs.Generation.Partition
import DataBinding.Proofs.CallSite.WellFormed
import DataBinding.Proofs.Generation.Problems
import DataBinding.Proofs.Supply.Uses
import DataBinding.Proofs.Path.Connected
import DataBinding.Proofs.Registered.Exact
