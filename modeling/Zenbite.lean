import Zenbite.Fat.FormatSize
import Zenbite.Fat.TableWrap
import Zenbite.Fat.FlushArea
import Zenbite.Fat.Alloc
import Zenbite.Fat.Atomic
import Zenbite.Fat.BufferRuns
import Zenbite.Fat.StaleHandles
import Zenbite.Fat.ConfineWrite
import Zenbite.Fat.NameTrip
import Zenbite.Automount
import Zenbite.Partition
import Zenbite.PartTables
import Zenbite.Net.Stream
import Zenbite.Net.Sender
import Zenbite.Net.State
import Zenbite.Zbc.Source
import Zenbite.Elf
import Zenbite.Zbc.Control
import Zenbite.Zbc.Calls
import Zenbite.Zbc.Traps
import Zenbite.Zbc.Format
import Zenbite.Zbc.Lexemes
import Zenbite.Zbc.ParserInside
import Zenbite.Zbc.ParseExpr
import Zenbite.Zbc.RunWhole
import Zenbite.Zas.Terminates
import Zenbite.Zas.Steps
import Zenbite.Vga
import Zenbite.Desktop
import Zenbite.Net.Frames
import Zenbite.Net.Send
import Zenbite.Net.Ping
import Zenbite.Net.Quad
import Zenbite.Net.DnsName
import Zenbite.Net.Dns
import Zenbite.Net.Checksum
import Zenbite.Net.Http
import Zenbite.Shell.Mv
import Zenbite.Notes
import Zenbite.Edit.Inv
import Zenbite.Edit.Primitives
import Zenbite.Edit.Careful
import Zenbite.Edit.Undo
import Zenbite.Edit.Redo
import Zenbite.Edit.Save
import Zenbite.Keyboard
import Zenbite.LargestFree
import Zenbite.MbrRuns
import Zenbite.Fat.FailedMount
import Zenbite.Fat.CwdPath
import Zenbite.Fat.Cwd
import Zenbite.Fat.CwdBuffer
import Zenbite.Fat.WholeNames
import Zenbite.Fat.RemoveDir
import Zenbite.Lib.Trails
import Zenbite.Fat.FreeChain
import Zenbite.Zas.Trace
import Zenbite.Zas.Tally
import Zenbite.Zas.Image
import Zenbite.Zas.Silent
import Zenbite.Zas.Agree
import Zenbite.Zas.Calls
import Zenbite.Zas.Branch
import Zenbite.CString
import Zenbite.Printf
import Zenbite.Shell.Wild
import Zenbite.Shell.Tokenize
import Zenbite.Shell.Alias
import Zenbite.Shell.History
import Zenbite.Shell.Grep
import Zenbite.Shell.DirSize
import Zenbite.Env
import Zenbite.Mm.Pmm
import Zenbite.Mm.Kheap
import Zenbite.Web.Query
import Zenbite.Web.HtmlHidden
import Zenbite.Calendar
import Zenbite.Snake.Faults
import Zenbite.Snake.Body
import Zenbite.Usb.Bulk
import Zenbite.Usb.DiskRead
import Zenbite.Calc.Right
import Zenbite.Net.Arp
import Zenbite.Edit.LineBuffer
import Zenbite.Console
import Zenbite.Mouse
import Zenbite.Usb.QtdChunks
import Zenbite.Usb.Descriptors
import Zenbite.Ahci
import Zenbite.E1000
import Zenbite.Ata
import Zenbite.Fat.FileTrip
