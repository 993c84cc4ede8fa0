import RealtimeTests.Lts
import RealtimeTests.Circular
import RealtimeTests.Time.Objects
import RealtimeTests.Time.Parse
import RealtimeTests.Task.Classify
import RealtimeTests.Task.Failing
import RealtimeTests.Report.Release
import RealtimeTests.Report.Cdf
import RealtimeTests.Task.Stop
import RealtimeTests.Launch
import RealtimeTests.Driver.Governor
import RealtimeTests.Server.Chain
import RealtimeTests.Server.Fifo
import RealtimeTests.Driver.Config
import RealtimeTests.Driver.Adjust
import RealtimeTests.Driver.Argv
import RealtimeTests.Cpu.Busyloop
import RealtimeTests.Cpu.Frequency
import RealtimeTests.Resource
import RealtimeTests.Task.Cleanup
import RealtimeTests.Time.Print
import RealtimeTests.Client
import RealtimeTests.Driver.CmdLine
import RealtimeTests.Job.Bounds
import RealtimeTests.Task.NameBuffer
import RealtimeTests.CpuHog
import RealtimeTests.Experiment
import RealtimeTests.Scanf
import RealtimeTests.SchedSwitch
import RealtimeTests.SchedSwitch.Delay
import RealtimeTests.Server.Bwi
import RealtimeTests.Server.Exchange
import RealtimeTests.Server.Hog
import RealtimeTests.Report.Run
