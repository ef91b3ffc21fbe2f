import Srunix.Library.FirstIndex
import Srunix.Library.Pool
import Srunix.Library.Steps
import Srunix.Library.TimeShare
import Srunix.Library.Runs
import Srunix.Library.Latch
import Srunix.Library.Bytes
import Srunix.Library.Forest
import Srunix.Library.Arena
import Srunix.Library.Words
import Srunix.Library.Wrap
import Srunix.Library.Decimal
import Srunix.Library.PageWalk
import Srunix.Library.Keyed
import Srunix.Lib.Pring
import Srunix.Lib.Terminal
import Srunix.Lib.Memory
import Srunix.Lib.Strings
import Srunix.Lib.IntToStr
import Srunix.Lib.Strstr
import Srunix.Lib.Strtok
import Srunix.Bkfs.State
import Srunix.Bkfs.Ops
import Srunix.Bkfs.Boot
import Srunix.Bkfs.Alloc
import Srunix.Bkfs.Spec
import Srunix.Bkfs.Calls
import Srunix.Bkfs.Entries
import Srunix.Bkfs.Order
import Srunix.Bkfs.Clash
import Srunix.Bkfs.Ownership
import Srunix.Bkfs.Leak
import Srunix.Bkfs.Counts
import Srunix.Bkfs.Copy
import Srunix.Bkfs.Store
import Srunix.Bkfs.Tree
import Srunix.Bkfs.Nodes
import Srunix.Bkfs.Failure
import Srunix.Bkfs.Sizes
import Srunix.Shell.Rm
import Srunix.Shell.Removal
import Srunix.Shell.Tty
import Srunix.Shell.Isolation
import Srunix.Shell.Cursor
import Srunix.Shell.Commands
import Srunix.Shell.Session
import Srunix.Shell.Redirect
import Srunix.Shell.Append
import Srunix.Shell.Namespace
import Srunix.Console.Keyboard
import Srunix.Console.Modifiers
import Srunix.Console.Typing
import Srunix.Console.Line
import Srunix.Console.Screen
import Srunix.Console.Frames
import Srunix.Console.Credentials
import Srunix.Console.Lines
import Srunix.Console.Command
import Srunix.Console.Echo
import Srunix.Console.Colour
import Srunix.Console.Rows
import Srunix.Disk.Mkfs
import Srunix.Disk.Mount
import Srunix.Disk.Agreement
import Srunix.Disk.Decode
import Srunix.Disk.Lifetime
import Srunix.Boot.PageTables
import Srunix.Kernel.Processes
import Srunix.Kernel.Heap
import Srunix.Shell.Redirect
import Srunix.Bkfs.Strncpy
import Srunix.Console.History
import Srunix.Console.Tokenizer
import Srunix.Shell.Path
import Srunix.Shell.Depth
import Srunix.Console.PrintfCalls
import Srunix.Console.Kill
import Srunix.Console.Mouse
import Srunix.Console.Overlay
import Srunix.Internet.IpToStr
import Srunix.Library.Silent
import Srunix.Live.Programs
import Srunix.Live.Step
import Srunix.Live.Quiet
import Srunix.Live.Terminals
import Srunix.Library.Fuel
import Srunix.Live.Fuel
import Srunix.Live.Run
import Srunix.Console.Session
import Srunix.Live.Refinement
import Srunix.Live.Session
import Srunix.Live.Login
import Srunix.Live.Secrecy
import Srunix.Live.Screens
import Srunix.Live.Locked
import Srunix.Shell.Whereabouts
import Srunix.Live.View
import Srunix.Library.Parts
import Srunix.Live.Notes
import Srunix.Live.Reports
