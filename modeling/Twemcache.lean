import Twemcache.Machine.Basic
import Twemcache.Text.Basic
import Twemcache.Queue.Basic
import Twemcache.Tailq.Basic
import Twemcache.Circular.Basic
import Twemcache.Assoc.Basic
import Twemcache.Assoc.Wf
import Twemcache.Assoc.Refine
import Twemcache.Cache.Basic
import Twemcache.Store.Basic
import Twemcache.Store.Slabs
import Twemcache.Store.Items
import Twemcache.Store.Shape
import Twemcache.Store.Wf
import Twemcache.Store.Inv
import Twemcache.Store.Alloc
import Twemcache.Store.Path
import Twemcache.Store.Gauge
import Twemcache.Store.Change
import Twemcache.Store.View
import Twemcache.Store.Evict
import Twemcache.Store.Serve
import Twemcache.Server.Basic
import Twemcache.Server.Inv
import Twemcache.Server.Ownership
import Twemcache.Server.Evict
import Twemcache.Server.Gauges
import Twemcache.Server.Refine
import Twemcache.Server.CasId
import Twemcache.Server.Reply
import Twemcache.Klog.Basic
import Twemcache.Klog.Exact
import Twemcache.Wire.Basic
import Twemcache.Wire.Build
import Twemcache.Wire.Transmit
import Twemcache.Ascii.Access
import Twemcache.Assoc.Chain
import Twemcache.Buffer.Basic
import Twemcache.Conn.Basic
import Twemcache.Conn.Dispatch
import Twemcache.Conn.Oom
import Twemcache.Server.Fail
import Twemcache.Server.Sound
import Twemcache.Thread.Dispatch
import Twemcache.Options.Basic
import Twemcache.Options.Class
import Twemcache.Options.Delta
import Twemcache.Options.Evict
import Twemcache.Options.Heap
import Twemcache.Server.Counter
import Twemcache.Server.SlabGet
import Twemcache.Store.Expire
import Twemcache.Text.Strict
import Twemcache.Server.Annex
import Twemcache.Server.Layout
import Twemcache.Server.LruOrder
import Twemcache.Assoc.Range
import Twemcache.Conn.Suffix
import Twemcache.Hash.Agree
import Twemcache.Hotkey.Basic
import Twemcache.Hotkey.Derive
import Twemcache.Hotkey.Ledger
import Twemcache.Hotkey.Rate
import Twemcache.Hotkey.Window
import Twemcache.Server.FreeQueue
import Twemcache.Stats.Aggregate
import Twemcache.Stats.Sizes
import Twemcache.Ring.Interleave
import Twemcache.Stats.Append
import Twemcache.Text.Bounded
import Twemcache.Server.Flush
import Twemcache.Server.Permanent
import Twemcache.Conn.Fetch
import Twemcache.Wire.Partial
import Twemcache.Conn.Answer
import Twemcache.Conn.Headers
import Twemcache.Ascii.Block
import Twemcache.Conn.Control
import Twemcache.Framer.Basic
import Twemcache.Conn.Framing
import Twemcache.Conn.Share
import Twemcache.Machine.Family
import Twemcache.System.Basic
import Twemcache.System.Refine
import Twemcache.System.Commit
import Twemcache.System.Stream
import Twemcache.Conn.Closing
import Twemcache.Conn.Fit
import Twemcache.Conn.Progress
import Twemcache.Conn.Loans
import Twemcache.System.Release
