import Xv6.Admission
import Xv6.Transparent
import Xv6.Refcount
import Xv6.Lib.Own
import Xv6.Vm.Map
import Xv6.Vm.Sv39
import Xv6.Kern.Act
import Xv6.Kern.Births
import Xv6.Kern.Deaths
import Xv6.Kern.Runs
import Xv6.Console
import Xv6.Lifetime
import Xv6.Mkfs.Append
import Xv6.Mkfs.Image
import Xv6.Lib.Chain
import Xv6.Lib.Fuel
import Xv6.Lib.Spans
import Xv6.LineEditor
import Xv6.Malloc.Alloc
import Xv6.Malloc.Runs
import Xv6.Sh.Grammar
import Xv6.Sh.Parse
import Xv6.Kern.Kills
import Xv6.PipeWake.Actions
import Xv6.PipeWake.Runs
import Xv6.Virtio.Actions
import Xv6.Virtio.Runs
import Xv6.Fs.Keeps
import Xv6.Fs.Ledger
import Xv6.Sys.Exec
import Xv6.Sys.NewImage
import Xv6.Sys.Procs
import Xv6.Vm.Fileread
import Xv6.Lib.Text
import Xv6.User.Grep
import Xv6.User.Primes
import Xv6.User.Xargs
import Xv6.Memmove
import Xv6.Printint
import Xv6.User.Find
import Xv6.Commit
import Xv6.Crash
