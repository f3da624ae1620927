import NvmeVirt.Library.Outcome
import NvmeVirt.Library.MixedRadix
import NvmeVirt.Library.Tally
import NvmeVirt.Library.Chain
import NvmeVirt.Library.Ring
import NvmeVirt.Pqueue.Placement
import NvmeVirt.Pqueue.Order
import NvmeVirt.Ssd.Timing
import NvmeVirt.Ssd.Channel
import NvmeVirt.Library.Filling
import NvmeVirt.Ssd.Latency
import NvmeVirt.Ssd.Idle
import NvmeVirt.Ssd.Dies
import NvmeVirt.Conv.Capacity
import NvmeVirt.Conv.Range
import NvmeVirt.Conv.PageIndex
import NvmeVirt.Conv.Integrity
import NvmeVirt.Conv.Policy
import NvmeVirt.Conv.Ahead
import NvmeVirt.Conv.CostBenefit
import NvmeVirt.Conv.Reads
import NvmeVirt.Conv.Transfers
import NvmeVirt.Kv.Prefixes
import NvmeVirt.Kv.Neighbours
import NvmeVirt.Kv.Batch
import NvmeVirt.Kv.Allocators
import NvmeVirt.Library.Bytes
import NvmeVirt.Kv.Acyclic
import NvmeVirt.Kv.Iterator
import NvmeVirt.Kv.Handles
import NvmeVirt.Kv.Payload
import NvmeVirt.Io.Integrity
import NvmeVirt.Io.Submission
import NvmeVirt.Io.Completion
import NvmeVirt.Io.Results
import NvmeVirt.Io.Sorted
import NvmeVirt.Io.Consumer
import NvmeVirt.Library.Segments
import NvmeVirt.Io.Translation
import NvmeVirt.Io.Dma
import NvmeVirt.Simple.Flush
import NvmeVirt.Admin.Completions
import NvmeVirt.Pci.Bars
import NvmeVirt.Pci.Reset
import NvmeVirt.Admin.Lifetime
import NvmeVirt.Zns.Limit
import NvmeVirt.Zns.Ledger
import NvmeVirt.Zns.Bounds
import NvmeVirt.Zns.Answers
import NvmeVirt.Zns.Conserved
import NvmeVirt.Zns.Rejected
import NvmeVirt.Conv.Wear
import NvmeVirt.Conv.VictimOrder
import NvmeVirt.Conv.Striping
import NvmeVirt.Pqueue.Refinement
import NvmeVirt.Io.Interleaving
import NvmeVirt.Io.Volumes
import NvmeVirt.Conv.Balance
import NvmeVirt.Io.Interrupts
import NvmeVirt.Zns.Lifecycle
import NvmeVirt.Zns.Report
import NvmeVirt.Pci.Config
