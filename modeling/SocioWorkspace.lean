import SocioWorkspace.Containment.Baseline
import SocioWorkspace.Drive.Frame
import SocioWorkspace.Drive.Listing
import SocioWorkspace.Drive.Pull
import SocioWorkspace.Drive.Rendezvous
import SocioWorkspace.Fabric.Checkpoints
import SocioWorkspace.Gbrg.Analyze
import SocioWorkspace.Gbrg.Observations
import SocioWorkspace.Gbrg.TestReach
import SocioWorkspace.Gbrg.WhatIf
import SocioWorkspace.Holographic.Disclosure
import SocioWorkspace.Holographic.Leadership
import SocioWorkspace.Holographic.Points
import SocioWorkspace.Holographic.Spread
import SocioWorkspace.Ledger.Concurrent
import SocioWorkspace.Ledger.Inclusion
import SocioWorkspace.Mesh.Aggregate
import SocioWorkspace.Mesh.Detector
import SocioWorkspace.Mesh.Dwell
import SocioWorkspace.Omnirisk.Acceptance
import SocioWorkspace.Omnirisk.Consistent
import SocioWorkspace.Omnirisk.Cuts
import SocioWorkspace.Propagation.Cycles
import SocioWorkspace.Propagation.Dispatch
import SocioWorkspace.Propagation.Merges
import SocioWorkspace.Quarantine.Arrival
import SocioWorkspace.Queue.Order
import SocioWorkspace.Regis.Resolve
import SocioWorkspace.Regis.Tamper
import SocioWorkspace.Respond.Composition
import SocioWorkspace.Respond.Detectors
import SocioWorkspace.Respond.Drain
import SocioWorkspace.Respond.Opener
import SocioWorkspace.Respond.Reconcile
import SocioWorkspace.Respond.Revert
import SocioWorkspace.Respond.Suppression
import SocioWorkspace.Runner.Topology
import SocioWorkspace.Scheduler.AutoMerge
import SocioWorkspace.Scheduler.Handler
import SocioWorkspace.Scheduler.RateLimiter
import SocioWorkspace.Scheduler.Retry
import SocioWorkspace.Storage.Placement
import SocioWorkspace.SupplyChain.Credit
import SocioWorkspace.SupplyChain.Paths
import SocioWorkspace.Svf.Run
import SocioWorkspace.Triad.Collect
import SocioWorkspace.Triad.Divergence
import SocioWorkspace.Triad.Grammar
