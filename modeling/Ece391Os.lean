import Ece391Os.Kernel.Machine
import Ece391Os.Process.HaltSafety
import Ece391Os.Process.Endings
import Ece391Os.Files.DescriptorRuns
import Ece391Os.Terminal.Calls
import Ece391Os.Terminal.Input
import Ece391Os.Data.Pieces
import Ece391Os.Files.Sequential
import Ece391Os.Files.Directory
import Ece391Os.Data.TextMode
import Ece391Os.Terminal.Video
import Ece391Os.Terminal.Screens
import Ece391Os.Terminal.Keys
import Ece391Os.Terminal.Separate
import Ece391Os.Process.Contexts
import Ece391Os.Files.Content
import Ece391Os.Files.Positions
import Ece391Os.Files.Buffers
import Ece391Os.Files.Lookup
import Ece391Os.Process.Vidmaps
import Ece391Os.Process.Entries
import Ece391Os.Process.Rates
import Ece391Os.Terminal.UserVideo
import Ece391Os.Terminal.Modifiers
import Ece391Os.Files.Opens
import Ece391Os.Process.Children
import Ece391Os.Process.Arguments
import Ece391Os.Process.Pointers
import Ece391Os.Terminal.Session
import Ece391Os.Terminal.Typing
import Ece391Os.Terminal.LineBuffer
import Ece391Os.Terminal.Cursor
import Ece391Os.Terminal.Echo
import Ece391Os.Data.LineDiscipline
import Ece391Os.Terminal.LineReads
import Ece391Os.Terminal.OneLine
import Ece391Os.Process.BootMap
import Ece391Os.Data.Divider
import Ece391Os.Process.VirtualRate
import Ece391Os.Data.Layout
import Ece391Os.Terminal.Wrapping
import Ece391Os.Data.Loop
import Ece391Os.Library.Blocks
import Ece391Os.Data.Numerals
import Ece391Os.Library.Numbers
import Ece391Os.Library.Printf
import Ece391Os.Data.CallStack
import Ece391Os.Process.CallTree
import Ece391Os.Process.Nesting
import Ece391Os.Data.InterruptController
import Ece391Os.Data.Peripherals
import Ece391Os.Data.X86Gates
import Ece391Os.Data.BitFields
import Ece391Os.Interrupts.Gates
import Ece391Os.Interrupts.Board
import Ece391Os.Interrupts.Delivery
import Ece391Os.Interrupts.Service
