import Twemcache.Ascii.Request
import Twemcache.Buffer.Basic
import Twemcache.Wire.Basic

/-!
# Connections

A connection (`struct conn`) is driven by `core_drive_machine` through the states of reading a
request line, acting on it, reading or swallowing its data block and writing the reply.  This module
has the structure and what is done with it alone: replies, the reply list of `get`, the buffers, and
cleaning up.

## Main definitions

* `ConnState`, `Conn` : `conn_state_t` and the fields of `struct conn`.
* `Event` : what happens to a connection, for the record that every connection keeps.
* `Conn.ascWriteString`, `Conn.coreWriteAndFree` : replies.
* `Conn.ascRespondGet` : the part of the reply list for one item.
* `Conn.connShrink`, `Conn.connBuildUdpHeaders` : the functions of these names.
-/

namespace Twemcache

/-- `TCP_BUFFER_SIZE`. -/
def tcpBufferSize : ℕ := 1024

/-- `UDP_BUFFER_SIZE`. -/
def udpBufferSize : ℕ := 65536

/-- `RSIZE_HIGHWAT`. -/
def rsizeHighwat : ℕ := 4096

/-- `ILIST_SIZE`. -/
def ilistSize : ℕ := 20

/-- `ILIST_HIGHWAT`. -/
def ilistHighwat : ℕ := 40

/-- `SLIST_SIZE`. -/
def slistSize : ℕ := 20

/-- `IOV_SIZE`. -/
def iovSize : ℕ := 40

/-- `IOV_HIGHWAT`. -/
def iovHighwat : ℕ := 60

/-- `MSG_SIZE`. -/
def msgSize : ℕ := 10

/-- `MSG_HIGHWAT`. -/
def msgHighwat : ℕ := 100

/-- `conn_state_t`, for connections that serve requests. -/
inductive ConnState where
  /-- Prepare the connection for the next command. -/
  | newCmd
  /-- Waiting for a readable socket. -/
  | wait
  /-- Reading in a command line. -/
  | read
  /-- Try to parse a command from the input buffer. -/
  | parse
  /-- Reading in a fixed number of bytes. -/
  | nread
  /-- Writing out a simple response. -/
  | write
  /-- Writing out many items sequentially. -/
  | mwrite
  /-- Swallowing unnecessary bytes without storing. -/
  | swallow
  /-- Closing this connection. -/
  | close
  deriving DecidableEq, Repr

/-- What happens to a connection. -/
inductive Event where
  /-- `asc_dispatch` is called for a line, the bytes before a newline; whether the handler sets
  `noreply`. -/
  | line (line : List UInt8) (noreply : Bool)
  /-- A handler reads the token array. -/
  | token (u : Use)
  /-- A storage command calls `item_alloc`; whether it succeeds. -/
  | alloc (ok : Bool)
  /-- A data block is complete in its item. -/
  | block (bytes : List UInt8)
  /-- A data block has been swallowed. -/
  | skip (bytes : List UInt8)
  /-- A reply is queued. -/
  | queued
  /-- What was received is dropped: a datagram of several, or too much for the memory. -/
  | dropped
  /-- The end of the stream is read. -/
  | eof
  deriving DecidableEq, Repr

/-- `struct conn`, with a record of what happened. -/
structure Conn where
  /-- The connection is a UDP connection. -/
  udp : Bool
  /-- Connection state. -/
  state : ConnState
  /-- Read buffer, `rbuf`, `rsize`, `rcurr` and `rbytes`. -/
  rbuf : Buffer UInt8
  /-- The bytes to write, `wcurr` and `wbytes`. -/
  wbuf : List UInt8
  /-- The state to go into after finishing the current write. -/
  writeAndGo : ConnState
  /-- There is memory to free after finishing writing. -/
  writeAndFree : Bool
  /-- The item that a storage command has allocated. -/
  item : Option ItemPtr
  /-- Where the next bytes of the data block go, from the start of the item's data. -/
  ritem : ℕ
  /-- How many bytes of the data block are missing. -/
  rlbytes : ℕ
  /-- How many bytes to swallow. -/
  sbytes : ℕ
  /-- The messages to the client. -/
  wire : Wire
  /-- `udp_hsize`. -/
  udpHsize : ℕ
  /-- UDP request id. -/
  udpRid : ℕ
  /-- Item list. -/
  ilist : ℕ → ItemPtr
  /-- The size of the item list. -/
  isize : ℕ
  /-- The current entry of the item list. -/
  icurr : ℕ
  /-- The number of entries that remain in the item list. -/
  ileft : ℕ
  /-- Suffix list; suffix buffers are numbered in the order in which they are taken. -/
  slist : ℕ → ℕ
  /-- The size of the suffix list. -/
  ssize : ℕ
  /-- The current entry of the suffix list. -/
  scurr : ℕ
  /-- The number of entries that remain in the suffix list. -/
  sleft : ℕ
  /-- Request type. -/
  reqType : ReqType
  /-- The client wants no reply. -/
  noreply : Bool
  /-- Ghost: the suffix buffers that were taken and not given back. -/
  suffixes : List ℕ
  /-- Ghost: how many suffix buffers were taken. -/
  nsuffix : ℕ
  /-- Ghost: the bytes of the current data block so far. -/
  rdata : List UInt8
  /-- Ghost: the connection was closed. -/
  freed : Bool
  /-- Ghost: what has happened. -/
  log : List Event

namespace Conn

/-- `conn_get`.  The contents of the buffers are arbitrary. -/
def init (udp : Bool) (mem : ℕ → UInt8) (ilist : ℕ → ItemPtr) (slist : ℕ → ℕ) (iov : ℕ → List UInt8)
    (msg : ℕ → Msghdr) (allocs : List Bool) : Conn where
  udp := udp
  state := if udp then .read else .newCmd
  rbuf := ⟨mem, if udp then udpBufferSize else tcpBufferSize, 0, 0⟩
  wbuf := []
  writeAndGo := if udp then .read else .newCmd
  writeAndFree := false
  item := none
  ritem := 0
  rlbytes := 0
  sbytes := 0
  wire := .empty udp iovSize msgSize iov msg allocs
  udpHsize := 0
  udpRid := 0
  ilist := ilist
  isize := ilistSize
  icurr := 0
  ileft := 0
  slist := slist
  ssize := slistSize
  scurr := 0
  sleft := 0
  reqType := .unknown
  noreply := false
  suffixes := []
  nsuffix := 0
  rdata := []
  freed := false
  log := []

variable (cfg : Config) (c : Conn)

/-- `rbytes`. -/
def rbytes : ℕ := c.rbuf.bytes

/-- Something is recorded. -/
def record (es : List Event) : Conn := { c with log := c.log ++ es }

/-- `mc_alloc`, `mc_realloc` or `cache_alloc`: whether it succeeds. -/
def alloc : Bool × Conn := ((c.wire.realloc).1, { c with wire := (c.wire.realloc).2 })

/-! ### Replies -/

/-- `asc_write_string`. -/
def ascWriteString (str : List UInt8) : Conn :=
  if c.noreply then { c with noreply := false, state := .newCmd }
  else
    let str := if str.length + crlfLen > tcpBufferSize then ascii "SERVER_ERROR" else str
    { c.record [.queued] with wbuf := str ++ crlf, state := .write, writeAndGo := .newCmd }

/-- The `asc_rsp` functions. -/
def ascRsp (r : Rsp) : Conn := c.ascWriteString r.text

/-- `core_write_and_free`. -/
def coreWriteAndFree : Option (List UInt8) → Conn
  | some buf =>
    { c.record [.queued] with
      writeAndFree := true, wbuf := buf, state := .write, writeAndGo := .newCmd }
  | none => c.ascRsp .serverError

/-! ### The reply list of get -/

/-- `conn_add_iov` for each of the buffers. -/
def connAddIovs (bufs : List (List UInt8)) : Rstatus × Conn :=
  ((c.wire.connAddIovs bufs).1, { c with wire := (c.wire.connAddIovs bufs).2 })

/-- The suffix list has room for the entry `iter`. -/
def growSlist (iter : ℕ) : Bool × Conn :=
  if iter ≥ c.ssize then
    match c.alloc with
    | (true, c) => (true, { c with ssize := c.ssize * 2 })
    | (false, c) => (false, c)
  else (true, c)

/-- `asc_create_suffix`: the number of the buffer. -/
def ascCreateSuffix (iter : ℕ) : Option ℕ × Conn :=
  match c.growSlist iter with
  | (false, c) => (none, c)
  | (true, c) =>
    match c.alloc with
    | (false, c) => (none, c.ascRsp .serverError)
    | (true, c) =>
      (some c.nsuffix, { c with
        slist := Function.update c.slist iter c.nsuffix
        suffixes := c.nsuffix :: c.suffixes
        nsuffix := c.nsuffix + 1 })

/-- `cache_free` of a suffix buffer. -/
def freeSuffix (suffix : ℕ) : Conn := { c with suffixes := c.suffixes.erase suffix }

/-- The text in the suffix buffer. -/
def suffixText (it : Item) (returnCas : Bool) : List UInt8 :=
  ascii " " ++ decimal it.dataflags ++ ascii " " ++ decimal it.nbyte ++
    if returnCas then ascii " " ++ decimal it.getCas else []

/-- `asc_respond_get`. -/
def ascRespondGet (iter : ℕ) (it : Item) (returnCas : Bool) : Rstatus × Conn :=
  match c.connAddIovs [ascii "VALUE ", it.key] with
  | (.enomem, c) => (.enomem, c)
  | (.ok, c) =>
    match c.ascCreateSuffix iter with
    | (none, c) => (.enomem, c)
    | (some suffix, c) =>
      match c.connAddIovs [suffixText it returnCas, crlf, it.value cfg, crlf] with
      | (.enomem, c) => (.enomem, c.freeSuffix suffix)
      | (.ok, c) => (.ok, c)

/-- The item list has room for the entry `iter`. -/
def growIlist (iter : ℕ) : Bool × Conn :=
  if iter ≥ c.isize then
    match c.alloc with
    | (true, c) => (true, { c with isize := c.isize * 2 })
    | (false, c) => (false, c)
  else (true, c)

/-- `conn_build_udp_headers`. -/
def connBuildUdpHeaders : Rstatus × Conn :=
  match if c.wire.msgUsed > c.udpHsize then c.alloc else (true, c) with
  | (false, c) => (.enomem, c)
  | (true, c') =>
    let n := c'.wire.msgUsed
    let hdr (i : ℕ) : List UInt8 := [c'.udpRid / 256, c'.udpRid % 256, i / 256, i % 256, n / 256,
      n % 256, 0, 0].map Nat.toUInt8
    (.ok, { c' with
      udpHsize := if n > c.udpHsize then n * 2 else c.udpHsize
      wire := { c'.wire with
        iov := (List.range n).foldl (fun iov i => Function.update iov (c'.wire.msg i).iov (hdr i))
          c'.wire.iov } })

/-! ### Buffers -/

/-- The part of `conn_shrink` about the read buffer. -/
def shrinkRbuf : Conn :=
  if c.rbuf.size > rsizeHighwat ∧ c.rbytes < tcpBufferSize then
    let c := if c.rbuf.curr ≠ 0 then { c with rbuf := c.rbuf.moveToFront } else c
    match c.alloc with
    | (true, c) => { c with rbuf := c.rbuf.resize tcpBufferSize }
    | (false, c) => c
  else c

/-- The part of `conn_shrink` about the item list. -/
def shrinkIlist : Conn :=
  if c.isize > ilistHighwat then
    match c.alloc with
    | (true, c) => { c with isize := ilistSize }
    | (false, c) => c
  else c

/-- The part of `conn_shrink` about the messages. -/
def shrinkMsg : Conn :=
  if c.wire.msgSize > msgHighwat then
    match c.alloc with
    | (true, c) => { c with wire := { c.wire with msgSize := msgSize } }
    | (false, c) => c
  else c

/-- The part of `conn_shrink` about the vectors. -/
def shrinkIov : Conn :=
  if c.wire.iovSize > iovHighwat then
    match c.alloc with
    | (true, c) => { c with wire := { c.wire with iovSize := iovSize } }
    | (false, c) => c
  else c

/-- `conn_shrink`. -/
def connShrink : Conn :=
  if c.udp then c else c.shrinkRbuf.shrinkIlist.shrinkMsg.shrinkIov

/-! ### References -/

/-- The items that remain in the item list. -/
def itemsLeft : List ItemPtr := (List.range c.ileft).map fun i => c.ilist (c.icurr + i)

/-- The suffix buffers that remain in the suffix list. -/
def suffixesLeft : List ℕ := (List.range c.sleft).map fun i => c.slist (c.scurr + i)

/-- The items that the connection has references to: `c->item`, and what remains in `ilist`. -/
def held : List ItemPtr := c.item.toList ++ c.itemsLeft

/-- The item list has been worked off. -/
def dropItems : Conn := { c with icurr := c.icurr + c.ileft, ileft := 0 }

/-- The suffix buffers that remain are given back. -/
def releaseSuffixes : Conn :=
  { c with
    suffixes := c.suffixesLeft.foldl List.erase c.suffixes
    scurr := c.scurr + c.sleft
    sleft := 0 }

end Conn

end Twemcache
