import SharingProbe.Library.Interaction
import SharingProbe.Library.Ledger
import SharingProbe.DataStrategy.Resources
import SharingProbe.DataStrategy.Establish
import SharingProbe.DataStrategy.Setup
import SharingProbe.DataStrategy.Lifetime
import SharingProbe.DataStrategy.Slots
import SharingProbe.DataStrategy.CtrlLayout
import SharingProbe.DataStrategy.Coherence
import SharingProbe.AioPhase.Model
import SharingProbe.AioPhase.Steps
import SharingProbe.AioPhase.Wakeup
import SharingProbe.AioPhase.Accounting
import SharingProbe.AioPhase.Window
import SharingProbe.AioPhase.Pass
import SharingProbe.AioPhase.Lifetime
import SharingProbe.HalAio.Model
import SharingProbe.Library.Hoare
import SharingProbe.HalAio.Lifetime
import SharingProbe.HalAio.Allocation
import SharingProbe.DataStrategy.Stride
import SharingProbe.DataStrategy.PageTypes
import SharingProbe.DataStrategy.Exchange
import SharingProbe.DataStrategy.Repeat
import SharingProbe.DataStrategy.Deadline
import SharingProbe.DataStrategy.Descriptors
import SharingProbe.HalAio.World
import SharingProbe.HalAio.Engines
import SharingProbe.HalAio.Aio
import SharingProbe.HalAio.RoundTrip
import SharingProbe.HalAio.Committed
import SharingProbe.HalAio.Iterations
import SharingProbe.HalAio.Arguments
import SharingProbe.Library.Framing
import SharingProbe.HalAio.Record
import SharingProbe.HalAio.Verification
import SharingProbe.Library.Network
import SharingProbe.Share.Model
import SharingProbe.Share.Rules
import SharingProbe.Share.Flight
import SharingProbe.Share.Pattern
import SharingProbe.HostShare.Model
import SharingProbe.HostShare.Cases
import SharingProbe.HostShare.IoTests
import SharingProbe.Share.Channel
import SharingProbe.MultiShare.Model
import SharingProbe.HalAio.Exact
import SharingProbe.MultiShare.Options
import SharingProbe.MultiShare.Tiling
import SharingProbe.MultiShare.Holdings
import SharingProbe.MultiShare.Cleanup
import SharingProbe.MultiShare.ReadBlock
import SharingProbe.MultiShare.Descriptors
import SharingProbe.MultiShare.Children
import SharingProbe.MultiShare.CpuBinding
import SharingProbe.HostUvaShare.TestData
import SharingProbe.DeviceShare.Model
import SharingProbe.Library.Turns
import SharingProbe.Share.Pair
import SharingProbe.DeviceShare.Copies
import SharingProbe.Library.Progress
import SharingProbe.HalAio.DisplayBytes
import SharingProbe.MultiShare.Lists
import SharingProbe.Library.Handler
import SharingProbe.Share.Verify
import SharingProbe.Library.Pieces
import SharingProbe.AioOperation.Completions
import SharingProbe.AioOperation.Contexts
import SharingProbe.HalHostIo.Model
import SharingProbe.HalHostIo.Transfer
import SharingProbe.HalHostIo.Verdict
import SharingProbe.HostShare.Effects
import SharingProbe.HostShare.Worker
import SharingProbe.HostShare.Roles
import SharingProbe.HostShare.HandOver
import SharingProbe.MultiShare.Star
import SharingProbe.MultiShare.Places
import SharingProbe.MultiShare.Rounds
import SharingProbe.MultiShare.Relay
import SharingProbe.MultiShare.Barriers
import SharingProbe.MultiShare.Alignment
import SharingProbe.MultiShare.Waiting
import SharingProbe.MultiShare.Passing
import SharingProbe.MultiShare.Verdict
import SharingProbe.HalMapProbe.Handshake
import SharingProbe.Library.CommandLine
