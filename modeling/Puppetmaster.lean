import Puppetmaster.Library.Transition
import Puppetmaster.Library.Fifo
import Puppetmaster.Library.Ring
import Puppetmaster.Library.Guard
import Puppetmaster.Library.Apart
import Puppetmaster.Library.Bloom
import Puppetmaster.Library.Window
import Puppetmaster.Library.Inventory
import Puppetmaster.Library.Stages
import Puppetmaster.Library.Bits
import Puppetmaster.Library.SwapRemove
import Puppetmaster.Library.Sweep
import Puppetmaster.Library.WordStream
import Puppetmaster.Library.Layout
import Puppetmaster.Library.Tally
import Puppetmaster.Library.Text
import Puppetmaster.Library.Scanf
import Puppetmaster.Library.Chunks
import Puppetmaster.Library.Parallel
import Puppetmaster.Library.Serial
import Puppetmaster.Library.Journey
import Puppetmaster.Hardware.TxnHasher
import Puppetmaster.Hardware.TxnHasher.Interleaved
import Puppetmaster.Hardware.VisibleFIFOF
import Puppetmaster.Hardware.Summary
import Puppetmaster.Hardware.Summary.History
import Puppetmaster.Hardware.Refresh
import Puppetmaster.Hardware.Conflict
import Puppetmaster.Hardware.Pm.Safety
import Puppetmaster.Hardware.Pm.Conservation
import Puppetmaster.Hardware.Pm.Walk
import Puppetmaster.Hardware.Pm.Lookahead
import Puppetmaster.Hardware.Pm.Progress
import Puppetmaster.Hardware.ClosedLoop
import Puppetmaster.Hardware.Connectal
import Puppetmaster.Hardware.Connectal.Frame
import Puppetmaster.Hardware.Connectal.Simulated
import Puppetmaster.Hardware.Connectal.Stops
import Puppetmaster.Hardware.Connectal.Lines
import Puppetmaster.Hardware.Connectal.Pacing
import Puppetmaster.Hardware.Connectal.Progress
import Puppetmaster.Hardware.Connectal.Serializable
import Puppetmaster.Hardware.Connectal.Admissions
import Puppetmaster.Hardware.Connectal.Requests
import Puppetmaster.Hardware.Connectal.RealPuppets
import Puppetmaster.Wrapper.Txn
import Puppetmaster.Wrapper.Pmhw
import Puppetmaster.Wrapper.Scheduler.Pipeline
import Puppetmaster.Wrapper.Scheduler.Log
import Puppetmaster.Wrapper.Scheduler.Serial
import Puppetmaster.Wrapper.Scheduler.Serializable
import Puppetmaster.Wrapper.Scheduler.Turns
import Puppetmaster.Wrapper.Scheduler.Places
import Puppetmaster.Wrapper.Scheduler.Progress
import Puppetmaster.Wrapper.SpscQueue.Order
import Puppetmaster.Wrapper.Bloom
import Puppetmaster.Wrapper.StQueue
import Puppetmaster.Runner.Stdlib
import Puppetmaster.Runner.Pmlog
import Puppetmaster.Runner.Pmlog.Record
import Puppetmaster.Runner.Hwlog2bin
import Puppetmaster.Runner.Hwlog2bin.Transcript
import Puppetmaster.Runner.Workload
import Puppetmaster.Runner.Workload.Bin
import Puppetmaster.Runner.Workload.Csv
import Puppetmaster.Runner.Analyze
import Puppetmaster.Runner.Analyze.Windows
import Puppetmaster.Runner.Analyze.Binary
import Puppetmaster.Runner.Analyze.Replay
import Puppetmaster.Runner.HwTest
import Puppetmaster.Runner.HwTest.Replay
import Puppetmaster.Runner.Generate.Fill
import Puppetmaster.Runner.Generate.Zipf
import Puppetmaster.Model.Compressed
