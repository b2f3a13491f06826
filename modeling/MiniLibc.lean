import MiniLibc.Wchar.Exact
import MiniLibc.Alloc.Heap
import MiniLibc.Alloc.Blocks
import MiniLibc.Alloc.Steps
import MiniLibc.Alloc.Grow
import MiniLibc.Alloc.Spec
import MiniLibc.Lib.Runs
import MiniLibc.Alloc.Ops
import MiniLibc.Alloc.Realloc
import MiniLibc.Alloc.Theorems
import MiniLibc.Stdio.File
import MiniLibc.Stdio.Position
import MiniLibc.Stdio.Steps
import MiniLibc.Stdio.Writes
import MiniLibc.Stdio.Output
import MiniLibc.Stdio.Regular
import MiniLibc.Stdio.Reads
import MiniLibc.Stdio.Direction
import MiniLibc.Stdio.Pushback
import MiniLibc.Stdio.Update
import MiniLibc.Stdio.Plain
import MiniLibc.Stdio.Represent
import MiniLibc.Stdio.Cursor
import MiniLibc.Stdio.Refine
import MiniLibc.Stdio.Equivalence
import MiniLibc.Lib.Resume
import MiniLibc.Wchar.Feed
import MiniLibc.Wchar.Strings
import MiniLibc.Wchar.Calls
import MiniLibc.Wchar.Sizing
import MiniLibc.Wchar.Bounded
import MiniLibc.Lib.FutexLock
import MiniLibc.Thread.Mutex
import MiniLibc.Thread.Ownership
import MiniLibc.Thread.Exclusion
import MiniLibc.Thread.FutexWord
import MiniLibc.Thread.OnceFlag
import MiniLibc.Thread.CallOnce
import MiniLibc.Thread.OneTime
import MiniLibc.Lib.EventCount
import MiniLibc.Thread.Condition
import MiniLibc.Thread.Waits
import MiniLibc.Thread.Reacquire
import MiniLibc.Thread.Notify
import MiniLibc.Thread.Stolen
import MiniLibc.Lib.Args
import MiniLibc.Stdio.Variadic
import MiniLibc.Internal.FloatParse
import MiniLibc.Lib.Numeral
import MiniLibc.Stdio.Format
import MiniLibc.Internal.FloatRead
import MiniLibc.Internal.FloatScale
import MiniLibc.Stdio.HexRoundTrip
import MiniLibc.Thread.Custody
import MiniLibc.Thread.Lifecycle
import MiniLibc.Thread.Storage
import MiniLibc.Thread.Claims
import MiniLibc.Thread.Handles
import MiniLibc.Thread.Reclaim
import MiniLibc.Thread.Reaper
import MiniLibc.Lib.Intrusive
import MiniLibc.Lib.Ledger
import MiniLibc.Stdio.Streams
import MiniLibc.Stdio.Open
import MiniLibc.Stdio.Resources
import MiniLibc.Stdio.Release
import MiniLibc.Stdio.FlushAll
import MiniLibc.Stdio.Sticky
import MiniLibc.Stdio.WideLines
import MiniLibc.Stdlib.Strto
import MiniLibc.Stdlib.Subject
import MiniLibc.Stdio.ScanFormat
import MiniLibc.Stdio.Scanset
import MiniLibc.Stdio.Number
import MiniLibc.Stdio.HexText
import MiniLibc.Stdio.Held
import MiniLibc.Stdio.Process
import MiniLibc.Stdio.Rebuffer
import MiniLibc.Internal.FloatGrammar
import MiniLibc.Internal.FloatSource
import MiniLibc.Stdio.Scan
import MiniLibc.Stdio.Suppress
import MiniLibc.Internal.FloatSimulation
import MiniLibc.Stdio.ScanSimulation
import MiniLibc.Stdio.ScanString
import MiniLibc.Stdio.PrintScan
import MiniLibc.Stdio.WideStore
import MiniLibc.Stdio.ScanStream
import MiniLibc.Lib.Checked
import MiniLibc.Lib.Gregorian
import MiniLibc.Time.Calendar
import MiniLibc.Time.Gmtime
import MiniLibc.Time.Mktime
import MiniLibc.Time.IsoWeek
import MiniLibc.Time.Strftime
import MiniLibc.Lib.FloatFormat
import MiniLibc.Math.Scale
import MiniLibc.Thread.Destructors
import MiniLibc.Math.Frexp
import MiniLibc.Math.Rint
import MiniLibc.Lib.FloatArith
import MiniLibc.Math.Remainder
import MiniLibc.Internal.FloatPolicy
import MiniLibc.Stdio.ScanFloating
import MiniLibc.Stdio.Precision
import MiniLibc.Str.Token
import MiniLibc.Stdlib.Sort
import MiniLibc.Directory.Readdir
import MiniLibc.Stdio.Reporting
import MiniLibc.Lib.Significant
import MiniLibc.Internal.Significand
import MiniLibc.Locale.State
import MiniLibc.Locale.Objects
import MiniLibc.Locale.Isolation
import MiniLibc.Stdio.WideWrite
import MiniLibc.Stdio.WideTransfer
import MiniLibc.Stdio.Lock
import MiniLibc.Crt.Termination
import MiniLibc.Math.Integral
import MiniLibc.Fenv.Environment
import MiniLibc.Fenv.Rounding
import MiniLibc.Locale.Restore
import MiniLibc.Thread.TlsTemplate
import MiniLibc.Thread.TlsBlocks
import MiniLibc.Process.Fork
import MiniLibc.Process.Spawn
import MiniLibc.Str.Compare
import MiniLibc.Str.Search
import MiniLibc.Str.Build
import MiniLibc.Control.Setjmp
import MiniLibc.Stdio.Arguments
import MiniLibc.Stdio.FormatEntry
import MiniLibc.Stdio.VaEntry
import MiniLibc.Stdio.ScanEntry
