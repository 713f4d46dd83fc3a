import FlowPlanner.Config.Environment
import FlowPlanner.Description.Document
import FlowPlanner.Description.Explain
import FlowPlanner.JobDocument.Optimize
import FlowPlanner.Proofs.Search.Limits
import FlowPlanner.Proofs.Search.Pruning
import FlowPlanner.Proofs.Graph.Reopening
import FlowPlanner.Proofs.Search.Validity
import FlowPlanner.Proofs.Job.Hint
import FlowPlanner.Proofs.Graph.Origin
import FlowPlanner.Proofs.Search.Hints
import FlowPlanner.Proofs.Search.Accounting
import FlowPlanner.Proofs.Graph.Conservation
import FlowPlanner.Proofs.Search.Renaming
import FlowPlanner.Proofs.Description.Explain
import FlowPlanner.Proofs.Search.Pricing
import FlowPlanner.Proofs.Search.Append
import FlowPlanner.Proofs.Job.Acceptance
import FlowPlanner.Proofs.Analysis.Fixpoint
import FlowPlanner.Proofs.Search.Dominance
import FlowPlanner.Proofs.Search.Combinations
import FlowPlanner.Proofs.Analysis.Requests
import FlowPlanner.Proofs.Property.Meaning
import FlowPlanner.Proofs.Search.Offers
import FlowPlanner.Proofs.Search.Partitioning
import FlowPlanner.Proofs.Search.KeyOrder
import FlowPlanner.Proofs.Analysis.Sizes
import FlowPlanner.Proofs.Property.Delivery
import FlowPlanner.Proofs.Search.Budget
import FlowPlanner.Proofs.Search.Lockstep
import FlowPlanner.Proofs.Search.Choices
