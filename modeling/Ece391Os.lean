import Ece391Os.Transition.Run
import Ece391Os.Transition.History
import Ece391Os.Transition.Transducer
import Ece391Os.Transition.Bounded
import Ece391Os.Transition.Waiting
import Ece391Os.Numeral.Canonical
import Ece391Os.X86.Machine
import Ece391Os.X86.PageWalk
import Ece391Os.X86.Tlb
import Ece391Os.X86.Stack
import Ece391Os.X86.Strings
import Ece391Os.X86.Controllers
import Ece391Os.Memory.Stores
import Ece391Os.Memory.Loops
import Ece391Os.Memory.BlockOperations
import Ece391Os.Memory.StringRoutines
import Ece391Os.Memory.Linked
import Ece391Os.Kernel.State
import Ece391Os.Console.Cursor
import Ece391Os.Console.Printf
import Ece391Os.Kernel.Paging
import Ece391Os.Kernel.Idt
import Ece391Os.Terminal.Screen
import Ece391Os.Console.TextConsole
import Ece391Os.Console.Simulation
import Ece391Os.Console.Text
import Ece391Os.Console.LastRows
import Ece391Os.Console.Background
import Ece391Os.Console.RawCursor
import Ece391Os.Console.ScreenBytes
import Ece391Os.Console.CursorRefines
import Ece391Os.FileSys.Image
import Ece391Os.FileSys.ReadData
import Ece391Os.FileSys.Slice
import Ece391Os.Device.Rtc
import Ece391Os.Device.RtcRate
import Ece391Os.Device.RtcWrite
import Ece391Os.Device.Pic
import Ece391Os.Keyboard.Buffer
import Ece391Os.Keyboard.Keys
import Ece391Os.Terminal.Read
import Ece391Os.Terminal.Write
import Ece391Os.Console.Digits
import Ece391Os.Console.Formats
import Ece391Os.Descriptor.Calls
import Ece391Os.Descriptor.ReadBounds
import Ece391Os.Descriptor.FileReads
import Ece391Os.Descriptor.Table
import Ece391Os.Descriptor.Opening
import Ece391Os.Descriptor.FailedReads
import Ece391Os.Process.Arguments
import Ece391Os.Process.BuiltIns
import Ece391Os.Process.Loading
import Ece391Os.Process.CommandLine
import Ece391Os.Process.ParserSafety
import Ece391Os.Memory.Contents
import Ece391Os.Process.Command
import Ece391Os.Process.Execute
import Ece391Os.Process.Schedule
import Ece391Os.Terminal.Switch
import Ece391Os.Machine.Step
import Ece391Os.Machine.StepCases
import Ece391Os.Machine.Frames
import Ece391Os.Machine.OwnDescriptors
import Ece391Os.Machine.TerminalRead
import Ece391Os.Machine.DirectoryListing
import Ece391Os.Process.Table
import Ece391Os.Process.Forest
import Ece391Os.Process.OneTerminal
import Ece391Os.Process.Chains
import Ece391Os.Process.View
import Ece391Os.Process.Outcomes
import Ece391Os.Process.Refines
import Ece391Os.Process.Frames
import Ece391Os.Process.UserMode
import Ece391Os.Process.Coherence
import Ece391Os.Process.Fairness
import Ece391Os.Process.KernelStack
import Ece391Os.Process.OwnStacks
import Ece391Os.Process.VideoPage
import Ece391Os.Process.Nested
import Ece391Os.Process.ParentRestored
import Ece391Os.Process.UserPages
import Ece391Os.Process.PageWords
import Ece391Os.Process.CachedPages
import Ece391Os.Process.Executable
import Ece391Os.Process.StartsExecutables
import Ece391Os.Process.TerminalSwitch
import Ece391Os.Process.Readers
import Ece391Os.Machine.RtcReads
import Ece391Os.Machine.Isolation
import Ece391Os.Machine.SystemCalls
import Ece391Os.Machine.DeviceInterrupts
import Ece391Os.Machine.InterruptLines
import Ece391Os.Machine.Library
import Ece391Os.Keyboard.Table
import Ece391Os.Keyboard.Refines
import Ece391Os.Keyboard.Bounds
import Ece391Os.Keyboard.Ownership
import Ece391Os.Keyboard.Lines
import Ece391Os.Keyboard.Input
import Ece391Os.Keyboard.ReadPhases
import Ece391Os.Keyboard.LineDiscipline
import Ece391Os.Keyboard.Backspace
import Ece391Os.Keyboard.Modifiers
import Ece391Os.Fish.Blink
import Ece391Os.Fish.Lights
import Ece391Os.Fish.Calls
import Ece391Os.Fish.Period
import Ece391Os.Grep.Search
import Ece391Os.Grep.Lines
import Ece391Os.Program.Calls
import Ece391Os.Ls.Main
import Ece391Os.Cat.Main
