import VerilogEx.Hdl.Logic
import VerilogEx.Hdl.Runs
import VerilogEx.Hdl.Memory
import VerilogEx.Hdl.Operators
import VerilogEx.Hdl.Resets
import VerilogEx.Hdl.Halting
import VerilogEx.Hdl.Verdicts
import VerilogEx.Hdl.Schedules
import VerilogEx.Hdl.Handshakes
import VerilogEx.Queues.WrapPointer
import VerilogEx.Queues.BoundedQueue
import VerilogEx.Queues.Ring
import VerilogEx.Uvm.Processes
import VerilogEx.Uvm.Delivery
import VerilogEx.Uvm.Progress
import VerilogEx.Uvm.Filling
import VerilogEx.Fifo.Rtl
import VerilogEx.Fifo.Pointers
import VerilogEx.Fifo.Refinement
import VerilogEx.Fifo.Interleaving
import VerilogEx.Fifo.Reset
import VerilogEx.Fifo.Depth
import VerilogEx.Fifo.Order
import VerilogEx.FifoBench.Components
import VerilogEx.FifoBench.Lockstep
import VerilogEx.FifoBench.Checker
import VerilogEx.FifoBench.Tasks
import VerilogEx.FifoBench.Scenario
import VerilogEx.FifoBench.Traffic
import VerilogEx.FifoBench.Sequences
import VerilogEx.FifoBench.Coverage
import VerilogEx.FifoBench.Phases
import VerilogEx.FifoBench.Environment
import VerilogEx.CounterUvm.Rtl
import VerilogEx.CounterUvm.Scoreboard
import VerilogEx.CounterUvm.Ticks
import VerilogEx.CounterUvm.Phases
import VerilogEx.AdderUvm.Scoreboard
import VerilogEx.AdderUvm.Phases
import VerilogEx.RamUvm.Rtl
import VerilogEx.RamUvm.Scoreboard
import VerilogEx.RamUvm.Checker
import VerilogEx.RamUvm.Processes
import VerilogEx.RamUvm.Phases
import VerilogEx.RamUvm.Sequential
import VerilogEx.RamUvm.Environment
import VerilogEx.Cpu.Parts
import VerilogEx.Cpu.SumRtl
import VerilogEx.Cpu.SumRuns
import VerilogEx.Cpu.SumLoop
import VerilogEx.Cpu.SumUnknown
import VerilogEx.Cpu.Count
