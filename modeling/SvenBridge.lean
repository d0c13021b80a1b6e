import SvenBridge.Lib.Machine
import SvenBridge.Lib.WaitFor
import SvenBridge.Lib.Serde
import SvenBridge.FramingLoss
import SvenBridge.LinkMtu
import SvenBridge.FramingStream
import SvenBridge.Client.OneLink
import SvenBridge.Client.Reconnect
import SvenBridge.Deadlock
import SvenBridge.Server.Lifetime
import SvenBridge.Server.Clients
import SvenBridge.Isolation
import SvenBridge.Lossless
import SvenBridge.Discovery
import SvenBridge.Controller.Removal
import SvenBridge.Controller.Attached
import SvenBridge.Controller.Failures
import SvenBridge.Ds.Stop
import SvenBridge.Ds.Agreement
import SvenBridge.Ds.Install
import SvenBridge.Restart.Calls
import SvenBridge.Ds.InstallDir
import SvenBridge.Ds.Mapcycle
import SvenBridge.Ds.Soundcache
import SvenBridge.AnnounceName
import SvenBridge.Query.Legacy
import SvenBridge.Browser
import SvenBridge.Ds.Console
import SvenBridge.Steamcmd.Output
import SvenBridge.Steamcmd.Ansi
import SvenBridge.Steamcmd.Archive
import SvenBridge.Wire.ByteStream
import SvenBridge.Wire.Header
import SvenBridge.Wire.Ifac
import SvenBridge.Wire.LinkDeadlines
import SvenBridge.Wire.Dedup
import SvenBridge.Wire.ChannelTable
