import Firmware.Memory
import Firmware.Heap.Basic
import Firmware.Heap.BlockHeader
import Firmware.Heap.Pool
import Firmware.Heap.Region
import Firmware.Heap.Layout
import Firmware.Heap.Budget
import Firmware.Heap.Bridge
import Firmware.Heap.Lent
import Firmware.Heap.Surface
import Firmware.Heap.Client
import Firmware.Text.Utf8
import Firmware.Text.Decimal
import Firmware.Severity
import Firmware.Pin
import Firmware.Serial
import Firmware.Log.Line
import Firmware.Log.Serial
import Firmware.Fault.Core
import Firmware.Fault.Handler
import Firmware.Fault.ModuleName
import Firmware.Crc
import Firmware.Heap.ByteVector
import Firmware.Build.Target
import Firmware.Build.Configuration
import Firmware.Build.Image
import Firmware.Build.Features
import Firmware.Build.Validation
import Firmware.Notation.Lexical
import Firmware.Notation.Skipped
import Firmware.Notation.Reader
import Firmware.Notation.Writer
import Firmware.Text.Hexadecimal
import Firmware.Build.Source
import Firmware.Build.LinkerScript
import Firmware.Build.Modules
import Firmware.Build.Step
import Firmware.Main
import Firmware.Proofs.Heap.Extents
import Firmware.Proofs.Heap.PoolTiling
import Firmware.Proofs.Heap.HoleLists
import Firmware.Proofs.Heap.StoredWords
import Firmware.Proofs.Heap.Calls
import Firmware.Proofs.Heap.Sessions
import Firmware.Proofs.Heap.RegionSteps
import Firmware.Proofs.Heap.RegionCalls
import Firmware.Proofs.Heap.SessionSteps
import Firmware.Proofs.Heap.PoolInvariant
import Firmware.Proofs.Heap.BlockStore
import Firmware.Proofs.Heap.HistoryIndependence
import Firmware.Proofs.Heap.StaleHandles
import Firmware.Proofs.Heap.HeapViews
import Firmware.Proofs.Heap.SurfaceAgreement
import Firmware.Proofs.Heap.Refusals
import Firmware.Proofs.Heap.ClientData
import Firmware.Proofs.Heap.Stages
import Firmware.Proofs.Heap.Tasks
import Firmware.Proofs.Heap.Interleaving
import Firmware.Proofs.Heap.BudgetCalls
import Firmware.Proofs.Heap.Accounting
import Firmware.Proofs.Heap.Hosts
import Firmware.Proofs.Heap.StoreHeaps
import Firmware.Proofs.Heap.ErasedRequests
import Firmware.Proofs.Heap.SlotPrograms
import Firmware.Proofs.Heap.SlotClients
import Firmware.Proofs.Heap.FaithfulDouble
import Firmware.Proofs.Text.Utf8
import Firmware.Proofs.Log.SinkWrites
import Firmware.Proofs.Log.LineReader
import Firmware.Proofs.Log.UniqueDecoding
import Firmware.Proofs.Fault.Overlap
import Firmware.Proofs.Fault.OverlappingFaults
import Firmware.Proofs.Log.Truncation
import Firmware.Proofs.Text.WellFormedUtf8
import Firmware.Proofs.Build.Acceptance
import Firmware.Proofs.Build.HeapStart
import Firmware.Proofs.Build.SourceReader
import Firmware.Proofs.Build.Agreement
import Firmware.Proofs.Build.GeneratedFiles
import Firmware.Proofs.Heap.Freeing
import Firmware.Proofs.Heap.GrantedSizes
import Firmware.Proofs.Notation.RoundTrip
import Firmware.Proofs.Crc.BitByBit
import Firmware.Proofs.Fault.ModuleNames
import Firmware.Proofs.Heap.HeaderMap
import Firmware.Proofs.Log.PinNames
