import KernelMaps.Cpu.List
import KernelMaps.Main
import KernelMaps.Map.Sequence
import KernelMaps.Map.View
import KernelMaps.Perf.History
import KernelMaps.Proofs.Cli.Statuses
import KernelMaps.Proofs.Codec.Acceptance
import KernelMaps.Proofs.Codec.Hexadecimal
import KernelMaps.Proofs.Cpu.Ranges
import KernelMaps.Proofs.Map.Dumps
import KernelMaps.Proofs.Map.Enumeration
import KernelMaps.Proofs.Map.FirstKeyClearing
import KernelMaps.Proofs.Map.Gaps
import KernelMaps.Proofs.Map.Hash
import KernelMaps.Proofs.Map.IndexClearing
import KernelMaps.Proofs.Map.Outcomes
import KernelMaps.Proofs.Map.PerCpuTexts
import KernelMaps.Proofs.Map.Readings
import KernelMaps.Proofs.Map.SharedWalks
import KernelMaps.Proofs.Map.SizeErrors
import KernelMaps.Proofs.Map.Snapshots
import KernelMaps.Proofs.Map.Strides
import KernelMaps.Proofs.Map.TextTable
import KernelMaps.Proofs.Map.ViewSizes
import KernelMaps.Proofs.Map.Views
import KernelMaps.Proofs.Perf.Bounds
import KernelMaps.Proofs.Perf.CounterLifecycle
import KernelMaps.Proofs.Perf.Delivery
import KernelMaps.Proofs.Perf.HandleSizes
import KernelMaps.Proofs.Perf.Opening
import KernelMaps.Proofs.Perf.Overrun
import KernelMaps.Proofs.Perf.PollConsume
import KernelMaps.Proofs.Perf.Sizes
import KernelMaps.Proofs.Stack.Addresses
import KernelMaps.Proofs.Stack.BuildIds
import KernelMaps.Proofs.Stack.Caches
import KernelMaps.Stack.BuildId
