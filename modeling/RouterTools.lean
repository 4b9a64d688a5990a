import RouterTools.Runs
import RouterTools.KeyedList
import RouterTools.TimerFiring
import RouterTools.TimerLock
import RouterTools.TimerTermination
import RouterTools.TimerProgress
import RouterTools.TimerPrograms
import RouterTools.LlistSort
import RouterTools.LlistMemory
import RouterTools.LeaseReport
import RouterTools.LanShown
import RouterTools.UciSetters
import RouterTools.LanFile
import RouterTools.LogSwitch
import RouterTools.IfaceNames
import RouterTools.IfaceRoundTrip
import RouterTools.LogAppend
import RouterTools.LogOverwrite
import RouterTools.LogLap
import RouterTools.RunCommand
import RouterTools.LogThreads
import RouterTools.IfaceMain
import RouterTools.IfaceProcess
import RouterTools.HandlerMemory
import RouterTools.ShowLan
