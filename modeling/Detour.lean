import Detour.ResolvConf.Runs
import Detour.ResolvConf.RestoreCrash
import Detour.ResolvConf.Disk
import Detour.ResolvConf.Readers
import Detour.Lib.Interleave
import Detour.ResolvConf.Concurrent
import Detour.Helper.Run
import Detour.Helper.Exit
import Detour.Helper.Commands
import Detour.Helper.Machine
import Detour.Lib.Typestate
import Detour.Helper.Phases
import Detour.Helper.Truthful
import Detour.Dpi.Fragment
import Detour.Dpi.SniOffset
import Detour.Dpi.Splice
import Detour.Lib.Environment
import Detour.Lib.Nft
import Detour.Tunnel.Config
import Detour.Tunnel.Kernel
import Detour.Tunnel.Up
import Detour.Tunnel.Marking
import Detour.Tunnel.Steps
import Detour.Tunnel.Down
import Detour.Tunnel.BringUp
import Detour.Tunnel.Rollback
import Detour.Tunnel.FailClosed
import Detour.FilterRoute.Rules
import Detour.FilterRoute.Redirect
import Detour.FilterRoute.Connections
import Detour.Gui.Commands
import Detour.Gui.Slice
import Detour.Gui.Coverage
import Detour.Core.Name
import Detour.Core.Policy
import Detour.Lib.Delimited
import Detour.Core.Matching
import Detour.Core.Cache
import Detour.Core.Lookups
import Detour.Core.Purging
import Detour.Core.Provider
import Detour.Core.Resolver
import Detour.Core.Answers
import Detour.Helper.Proxy
import Detour.Helper.Replies
import Detour.Helper.Serve
import Detour.Helper.Transports
import Detour.Lib.Datagrams
import Detour.Upstream.Isolation
import Detour.Core.Config
import Detour.Rust.AddrText
import Detour.Helper.Listen
import Detour.Helper.Clients
import Detour.Lib.Sections
import Detour.Tunnel.Parse
import Detour.Tunnel.Format
import Detour.Tunnel.Endpoints
import Detour.Lib.Radix
import Detour.Core.Reverse
import Detour.Core.Profiles
import Detour.Core.Eviction
import Detour.Dpi.Severing
import Detour.Helper.Truncation
import Detour.Helper.WaysOut
import Detour.Tunnel.Secrets
import Detour.Rust.Utf8
import Detour.Dpi.Connect
import Detour.ResolvConf.Failures
import Detour.Gui.Launches
import Detour.Gui.Races
import Detour.Attach.Sockets
import Detour.Lib.Worklist
import Detour.Attach.Command
import Detour.Attach.Processes
import Detour.Attach.Strays
import Detour.Helper.Diagnose
import Detour.Attach.Locality
import Detour.Gui.Scopes
import Detour.Gui.Instances
import Detour.Rust.AddrLetters
import Detour.Core.Pinning
import Detour.Gui.Filter
import Detour.Attach.SsLines
import Detour.Gui.Presence
import Detour.Lib.Bounded
import Detour.Lib.Views
import Detour.Helper.QueryLog
import Detour.Helper.Serving
import Detour.Dpi.Counters
import Detour.Gui.Counters
import Detour.Helper.Verdicts
import Detour.Rust.Utf8Text
import Detour.Attach.ProcFiles
import Detour.Attach.Snapshot
import Detour.Attach.Authority
