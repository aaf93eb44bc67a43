import JosLab.Shared.Outcome
import JosLab.Shared.Loop
import JosLab.Shared.Scan
import JosLab.Shared.Memory
import JosLab.Inc.Fault
import JosLab.Inc.Stab
import JosLab.Inc.X86
import JosLab.Lib.Strings
import JosLab.Inc.Stdarg
import JosLab.Lib.Printfmt
import JosLab.Lib.FormatGrammar
import JosLab.Lib.FormatRefinement
import JosLab.Lib.Conversions
import JosLab.Lib.Vprintfmt
import JosLab.Lib.Snprintf
import JosLab.Kern.Console
import JosLab.Kern.Paper
import JosLab.Kern.Kdebug
import JosLab.Kern.StabSearch
import JosLab.Kern.StabRange
import JosLab.Kern.Symbolize
import JosLab.Kern.StabBounds
import JosLab.Kern.ScreenRefinement
import JosLab.Kern.Keyboard
import JosLab.Kern.ConsoleInput
import JosLab.Kern.InputQueue
import JosLab.Kern.InputOrder
import JosLab.Kern.InputOverflow
import JosLab.Lib.Readline
import JosLab.Lib.LineEditing
import JosLab.Lib.LineEcho
import JosLab.Kern.DeviceStreams
import JosLab.Kern.StabRegions
import JosLab.Boot.Main
import JosLab.Boot.LoadSegments
import JosLab.Lib.StringField
import JosLab.Kern.PrintfScreen
import JosLab.Shared.Latch
import JosLab.Kern.Modifiers
import JosLab.Shared.Numeral
import JosLab.Lib.Strtol
import JosLab.Lib.ReadBack
import JosLab.Boot.Termination
import JosLab.Lib.Memmove
import JosLab.Lib.Memset
import JosLab.Kern.MouseBytes
import JosLab.Kern.Monitor
import JosLab.Shared.Words
import JosLab.Kern.CommandLine
import JosLab.Lib.Directives
import JosLab.Lib.NumberField
import JosLab.Lib.LiteralStar
import JosLab.Lib.StringPadding
import JosLab.Lib.FormatPieces
import JosLab.Kern.ConsoleActs
import JosLab.Kern.DebugNames
import JosLab.Kern.MonitorCommands
import JosLab.Lib.Comparison
import JosLab.Lib.ErrorField
import JosLab.Lib.PrecisionReads
import JosLab.Kern.NavigationKeys
import JosLab.Lib.AbandonedDirective
import JosLab.Lib.NumberGrammar
import JosLab.Lib.StrtolSubject
import JosLab.Boot.Drive
import JosLab.Inc.Mmu
import JosLab.Inc.Types
import JosLab.Kern.ConsoleLine
import JosLab.Kern.KernelCommands
import JosLab.Kern.MonitorSafety
import JosLab.Kern.SerialPort
import JosLab.Boot.Handover
import JosLab.Boot.Start
import JosLab.Kern.ConsoleInit
import JosLab.Kern.Init
import JosLab.Lib.StringCopy
import JosLab.Kern.HighMemory
