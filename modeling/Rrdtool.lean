import Rrdtool.Lib.Loop
import Rrdtool.Lib.Machine
import Rrdtool.Lib.CStr
import Rrdtool.Lib.Ring
import Rrdtool.Rpn
import Rrdtool.Update
import Rrdtool.Create
import Rrdtool.Rows
import Rrdtool.Fetch
import Rrdtool.Atomic
import Rrdtool.Batch
import Rrdtool.Resize
import Rrdtool.Usable
import Rrdtool.Split
import Rrdtool.Daemon.Order
import Rrdtool.Daemon.Journal
import Rrdtool.Daemon.Encoding
import Rrdtool.Daemon.Replay
import Rrdtool.Daemon.Queue
import Rrdtool.Daemon.Locks
import Rrdtool.Daemon.Shutdown
import Rrdtool.Tune
import Rrdtool.HwRun
import Rrdtool.Counter
import Rrdtool.Timeline
import Rrdtool.Open
import Rrdtool.NoMmap
import Rrdtool.Daemon.Connection
import Rrdtool.Daemon.Client
import Rrdtool.Daemon.Access
import Rrdtool.Daemon.Framing
import Rrdtool.Interval
import Rrdtool.Updatev
import Rrdtool.Smoother
import Rrdtool.NewFile
import Rrdtool.FetchWindow
import Rrdtool.First
import Rrdtool.Daemon.Disk
import Rrdtool.Daemon.Crash
import Rrdtool.Template
import Rrdtool.SeasonalCache
import Rrdtool.SmoothingWindow
import Rrdtool.FailureWindow
import Rrdtool.Graph.Reduce
import Rrdtool.Rpn.Calc
import Rrdtool.Rpn.Safety
import Rrdtool.Rpn.Depth
import Rrdtool.Rpn.Expression
import Rrdtool.Rpn.Refine
import Rrdtool.Rpn.Grammar
import Rrdtool.Rpn.Compact
import Rrdtool.Rpn.Print
import Rrdtool.Rpn.Pointers
import Rrdtool.Graph.DataCalc
import Rrdtool.Graph.Align
import Rrdtool.Graph.Xport
import Rrdtool.Cgi.Variables
import Rrdtool.Cgi.Path
import Rrdtool.Graph.Percent
import Rrdtool.Graph.LocalTime
import Rrdtool.Graph.PrintFormat
import Rrdtool.Cgi.Expand
import Rrdtool.Parsetime.Offset
import Rrdtool.Graph.Trend
import Rrdtool.Difference
import Rrdtool.Remote
import Rrdtool.Cgi.Argv
import Rrdtool.Graph.Reads
import Rrdtool.Graph.Meaning
import Rrdtool.TuneFrame
import Rrdtool.Life
import Rrdtool.Lib.Parse
import Rrdtool.Restore.Backwards
import Rrdtool.Restore.Writes
import Rrdtool.Lib.Scientific
import Rrdtool.Lib.Xml
import Rrdtool.Lib.Takes
import Rrdtool.Restore.Values
import Rrdtool.Dump
import Rrdtool.Restore.DumpDocument
import Rrdtool.Restore.RoundTrip
