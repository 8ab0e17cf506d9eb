import LinkState.Main
import LinkState.Proofs.CandidateQueue
import LinkState.Proofs.SettleOrder
import LinkState.Proofs.Offers
import LinkState.Proofs.Exploration
import LinkState.Proofs.Explored
import LinkState.Proofs.LeastCost
import LinkState.Proofs.FirstHops
import LinkState.Proofs.EqualCost
import LinkState.Proofs.LoopFreedom
import LinkState.Proofs.DepthFirst
import LinkState.Proofs.Children
import LinkState.Proofs.InstalledRoutes
import LinkState.Proofs.StubRouters
import LinkState.Proofs.StoredNodes
import LinkState.Proofs.Wires
import LinkState.Proofs.OneWire
import LinkState.Proofs.Recomputation
import LinkState.Proofs.RootIsolation
import LinkState.Proofs.SelfRoutes
import LinkState.Proofs.ReachablePart
import LinkState.Proofs.OrderIndependence
import LinkState.Proofs.Moments
import LinkState.Proofs.Bookkeeping
import LinkState.Proofs.Finality
import LinkState.Proofs.TreeStructure
import LinkState.Proofs.AttachedNetworks
import LinkState.Proofs.PriorityMap
import LinkState.Proofs.LastOccurrence
import LinkState.Proofs.StoreHistory
import LinkState.Proofs.Interfaces
import LinkState.Proofs.PreOrder
import LinkState.Proofs.Arenas
import LinkState.Proofs.SingleRoot
import LinkState.Proofs.Conversion
import LinkState.Proofs.Rebuilding
import LinkState.Proofs.RecursiveOrder
import LinkState.Proofs.SharedChildren
