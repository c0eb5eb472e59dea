import Twemcache.Conn.Basic
import Twemcache.Server.Basic

/-!
# Driving a connection

`core_drive_machine` (`mc_core.c`) takes a connection from state to state until it has to wait for
the socket.  Its turns are the steps of a machine whose labels say what the environment answers:
what `read`, `recvfrom` and `sendmsg` return, which allocations fail, and so on.  Between two turns
the rest of the server may do anything to the store and to the settings.

## Main definitions

* `Session` : a connection with the store, the settings and the bytes that its peer has sent.
* `Session.processRead` : the loop of `asc_process_read`.
* `Session.execute` : what the handlers do once they have read the fields of the request.
* `Session.ascCompleteNread` : `asc_complete_nread`.
* `Session.coreReadTcp`, `Session.ascParse`, `Session.coreTransmit` : the functions of these names.
* `session` : the machine.
-/

namespace Twemcache

/-- What `read` returns. -/
inductive ReadResult where
  /-- Bytes. -/
  | data (bytes : List UInt8)
  /-- The end of the stream. -/
  | eof
  /-- There is nothing to read now. -/
  | eagain
  /-- Any other error. -/
  | error
  deriving DecidableEq, Repr

/-- `read_result_t`. -/
inductive ReadOutcome where
  | dataReceived
  | noDataReceived
  | error
  | memoryError
  deriving DecidableEq, Repr

/-- A connection and its surroundings. -/
structure Session where
  /-- The connection. -/
  conn : Conn
  /-- The store. -/
  store : Store
  /-- The settings. -/
  set : Settings
  /-- What the peer of a TCP connection sends and was not read yet. -/
  input : List UInt8
  /-- `core_drive_machine` is running. -/
  running : Bool
  /-- How many requests may still be started before the connection has to yield. -/
  nreqs : ℤ

namespace Session

variable (cfg : Config) (ch : Choice) (w : Session)

/-- Change the connection. -/
def setConn (f : Conn → Conn) : Session := { w with conn := f w.conn }

/-- `conn_set_state`. -/
def setState (s : ConnState) : Session := w.setConn fun c => { c with state := s }

/-- `item_remove`. -/
def itemRemove (p : ItemPtr) : Session := { w with store := w.store.itemRemove p }

/-! ### The loop of get -/

/-- How the inner loop of `asc_process_read` ends. -/
inductive Walk where
  /-- The handler has returned. -/
  | returned
  /-- The loop has ended at this token. -/
  | ended (t : Token)
  deriving DecidableEq, Repr

/-- The inner loop of `asc_process_read`, from the token with index `i` on; `ntoken` elements of the
array are filled, and `iter` items are in the reply list.  It stops at a token of length zero. -/
def readKeys (returnCas : Bool) (ntoken : ℕ) :
    List Token → (i iter : ℕ) → Session → Walk × ℕ × Session
  | [], i, iter, w => (.returned, iter, w.setConn (·.record [.token ⟨i, ntoken, false⟩]))
  | t :: ts, i, iter, w =>
    if t.len = 0 then (.ended t, iter, w.setConn (·.record [.token ⟨i, ntoken, false⟩]))
    else
      let w := w.setConn (·.record [.token ⟨i, ntoken, true⟩])
      if t.len > keyMaxLen then (.returned, iter, w.setConn (·.ascRsp .clientError))
      else
        match w.store.itemGet cfg t.text with
        | (none, st) => readKeys returnCas ntoken ts (i + 1) iter { w with store := st }
        | (some it, st) =>
          match w.conn.growIlist iter with
          | (false, c) => (.ended t, iter, { w with conn := c, store := st.itemRemove it })
          | (true, c) =>
            match c.ascRespondGet cfg iter (st.items it) returnCas with
            | (.enomem, c) =>
              (.ended t, iter, { w with conn := c.ascRsp .serverError, store := st.itemRemove it })
            | (.ok, c) => readKeys returnCas ntoken ts (i + 1) (iter + 1)
              { w with
                conn := { c with ilist := Function.update c.ilist iter it }
                store := st.itemTouch cfg it }

/-- The end of `asc_process_read`: the connection takes over the lists and `END` is added. -/
def finishRead (iter : ℕ) : Session :=
  let w := w.setConn fun c => { c with icurr := 0, ileft := iter, scurr := 0, sleft := iter }
  match w.conn.connAddIovs [ascii "END" ++ crlf] with
  | (.enomem, c) => { w with conn := c.ascRsp .serverError }
  | (.ok, c) =>
    match if c.udp then c.connBuildUdpHeaders else (.ok, c) with
    | (.enomem, c) => { w with conn := c.ascRsp .serverError }
    | (.ok, c) =>
      { w with conn := { c.record [.queued] with
          state := .mwrite, wire := { c.wire with msgCurr := 0 } } }

/-- The outer loop of `asc_process_read`, from the token with index `i` on.  A failed allocation
ends the inner loop at a key, at which the next turn starts again; `none` if `fuel` turns do not
come to the end of the request. -/
def readLoop (returnCas : Bool) : (fuel : ℕ) → List Token → (i iter : ℕ) → Session → Option Session
  | 0, _, _, _, _ => none
  | fuel + 1, ts, i, iter, w =>
    match readKeys cfg returnCas (i + ts.length) ts i iter w with
    | (.returned, _, w) => some w
    | (.ended t, iter, w) =>
      match t.val with
      | none => some (w.finishRead iter)
      | some rest =>
        let ts := ascTokenize rest tokenMax
        match ts.head?.bind Token.val with
        | none => some (w.finishRead iter)
        | some _ => readLoop returnCas fuel ts 0 iter w

/-! ### Commands -/

/-- The part of `asc_process_update` and `asc_process_annex` from `item_alloc` on. -/
def allocItem (key : Key) (dataflags exptime vlen : ℕ) (casId : Option ℕ) : Session :=
  match w.store.itemAlloc cfg ch (itemSlabid cfg key.length vlen) key dataflags exptime vlen with
  | (none, st) =>
    let c := (w.conn.record [.alloc false]).ascRsp .serverError
    { w with
      conn := { c with writeAndGo := .swallow, sbytes := vlen + crlfLen, rdata := [] }
      store := (st.itemDelete cfg key).2 }
  | (some it, st) =>
    let st := match casId with
      | none => st
      | some cas => st.setItem it (·.setCas cas)
    { w with
      conn := { w.conn.record [.alloc true] with
        item := some it, ritem := 0, rlbytes := (st.items it).nbyte + crlfLen, rdata := []
        state := .nread }
      store := st }

/-- The settings after a change; `reallocOk` says whether `_hotkey_realloc` succeeds.  The answer is
false if the change failed. -/
def applySetting (reallocOk : Bool) (s : Setting) : Bool × Session :=
  match s with
  | .verbosity level => (true, { w with set := { w.set with verbose := level } })
  | .statsInterval n => (true, { w with set := { w.set with statsInterval := n } })
  | .klogRunning b => (true, { w with set := { w.set with klogRunning := b } })
  | .klogSampling n => (true, { w with set := { w.set with klogSamplingRate := n } })
  | .evict opt => (true, { w with store := { w.store with evictOpt := opt } })
  | .maxbytes n => (true, { w with set := { w.set with maxbytes := n } })
  | .hkEnable b => (true, { w with set := { w.set with hotkeyEnable := b } })
  | .hkRedline n =>
    if w.set.hotkeyRedlineQps = n then (true, w)
    else (reallocOk, { w with set := { w.set with
      hotkeyRedlineQps := n, hotkeyRealloc := !reallocOk } })
  | .hkSampleRate n =>
    if w.set.hotkeySampleRate = n then (true, w)
    else (reallocOk, { w with set := { w.set with
      hotkeySampleRate := n, hotkeyRealloc := !reallocOk } })
  | .hkQpsThreshold q => (true, { w with set := { w.set with hotkeyQpsThreshold := q } })
  | .hkBwThreshold n => (true, { w with set := { w.set with hotkeyBwThreshold := n } })

/-- A store operation is answered. -/
def answer (st : Store) (r : Rsp) : Session := { w with conn := w.conn.ascRsp r, store := st }

/-- What `item_delta` is answered with. -/
def deltaReply : DeltaResult → Rsp
  | .ok value => .int value
  | .notFound => .notFound
  | .nonNumeric => .clientError
  | .eom => .serverError

/-- What `item_delete` is answered with. -/
def deleteReply : DeleteResult → Rsp
  | .ok => .deleted
  | .notFound => .notFound

/-- What the environment decides while a request is dispatched. -/
structure Circumstances where
  /-- The choices within the store. -/
  ch : Choice := {}
  /-- What the memory of the token array holds. -/
  stack : ℕ → Token := fun _ => ⟨none, 0⟩
  /-- The buffer that the statistics are printed to, `none` if it could not be allocated. -/
  stats : Option (List UInt8) := none
  /-- `_hotkey_realloc` succeeds. -/
  reallocOk : Bool := true
  /-- A bound on the turns of the loop of `get`. -/
  fuel : ℕ := 0

/-- The handlers, from where they act; `ts` are the tokens of the request. -/
def execute (e : Circumstances) (ts : List Token) : Command → Option Session
  | .respond r => some (w.setConn (·.ascRsp r))
  | .read returnCas => readLoop cfg returnCas e.fuel (ts.drop tokenKey) tokenKey 0 w
  | .update _ key dataflags exptime vlen casId =>
    some (w.allocItem cfg e.ch key dataflags (w.store.timeReltime cfg exptime) vlen casId)
  | .annex _ key vlen => some (w.allocItem cfg e.ch key 0 0 vlen none)
  | .delta incr key delta =>
    let r := w.store.itemDelta cfg e.ch key incr delta
    some (w.answer r.2 (deltaReply r.1))
  | .delete key =>
    let r := w.store.itemDelete cfg key
    some (w.answer r.2 (deleteReply r.1))
  | .stats _ => some (w.setConn (·.coreWriteAndFree e.stats))
  | .flush exptime =>
    let st := { w.store with oldestLive := w.store.flushallTime cfg exptime }
    some (w.answer (st.itemFlushExpired cfg) .ok)
  | .configure s =>
    let r := w.applySetting e.reallocOk s
    some (r.2.setConn (·.ascRsp (if r.1 then .ok else .clientError)))
  | .quit => some (w.setState .close)

/-- `asc_dispatch`; `line` is the request with everything before the newline, `req` the C string
that is left of it. -/
def dispatch (e : Circumstances) (line req : List UInt8) : Option Session :=
  let wire := { w.conn.wire with msgCurr := 0, msgUsed := 0, iovUsed := 0 }
  match wire.connAddMsghdr with
  | (.enomem, wire) =>
    some (w.setConn fun c => ({ c with wire := wire }.record [.line line c.noreply]).ascRsp
      .serverError)
  | (.ok, wire) =>
    let r := ascDispatch cfg w.set e.stack req w.conn.noreply
    let w := w.setConn fun c =>
      { c with wire := wire, noreply := r.2.noreply, reqType := reqTypeOf req }.record
        (.line line r.2.noreply :: r.2.uses.map .token)
    w.execute cfg e (ascTokenize req tokenMax) r.1

/-- The request that `asc_parse` finds in a line: a carriage return at its end is cut off, unless
there is nothing before it, and so is everything from a NUL on. -/
def request (line : List UInt8) : List UInt8 :=
  let req := if line.length > 1 ∧ line.getLast? = some 13 then line.dropLast else line
  req.takeWhile (· ≠ 0)

/-- A line that has not ended after 1024 bytes must be a `get` or `gets` after at most 100 spaces.
-/
def largeGet (bytes : List UInt8) : Bool :=
  let ptr := bytes.dropWhile (· = 32)
  bytes.length - ptr.length ≤ 100 &&
    (ptr.take 4 = ascii "get " || ptr.take 5 = ascii "gets ")

/-- `core_parse` with `asc_parse`. -/
def coreParse (e : Circumstances) : Option Session :=
  let bytes := w.conn.rbuf.unread
  if 10 ∈ bytes then
    let line := bytes.takeWhile (· ≠ 10)
    (w.dispatch cfg e line (request line)).map fun w =>
      w.setConn fun c => { c with rbuf := c.rbuf.skip (line.length + 1) }
  else if bytes.length > 1024 ∧ ¬ largeGet bytes then some (w.setState .close)
  else some (w.setState .wait)

/-! ### Data blocks -/

/-- The storage function for the type of the request, with the reply to its result. -/
def completeStore (it : ItemPtr) : Rsp × Store :=
  match w.conn.reqType with
  | .cas =>
    let r := w.store.itemCas cfg ch it
    (match r.1 with
      | .ok => .stored
      | .exists => .exists
      | .notFound => .notFound, r.2)
  | .add =>
    let r := w.store.itemAdd cfg ch it
    (match r.1 with
      | .ok => .stored
      | .exists => .notStored, r.2)
  | .replace =>
    let r := w.store.itemReplace cfg ch it
    (match r.1 with
      | .ok => .stored
      | .notFound => .notStored, r.2)
  | .append | .prepend | .appendrl | .prependrl =>
    let r := w.store.itemAnnex cfg ch (w.conn.reqType = .prepend ∨ w.conn.reqType = .prependrl) it
    (match r.1 with
      | .ok nbyte =>
        if w.conn.reqType = .appendrl ∨ w.conn.reqType = .prependrl then .int nbyte else .stored
      | .notFound => .notStored
      | .oversized => .clientError
      | .eom => .serverError, r.2)
  | _ => (.stored, w.store.itemSet cfg ch it)

/-- `asc_complete_nread`. -/
def ascCompleteNread : Session :=
  match w.conn.item with
  | none => w
  | some it =>
    let o := w.store.items it
    let r := if o.read (o.data cfg + o.nbyte) crlfLen ≠ crlf then (Rsp.clientError, w.store)
      else w.completeStore cfg ch it
    let c := (w.conn.record [.block w.conn.rdata]).ascRsp r.1
    { w with conn := { c with item := none, rdata := [] }, store := r.2.itemRemove it }

/-- Bytes of the data block go to the item. -/
def fillItem (bytes : List UInt8) : Session :=
  { w with
    conn := { w.conn with
      ritem := w.conn.ritem + bytes.length
      rlbytes := w.conn.rlbytes - bytes.length
      rdata := w.conn.rdata ++ bytes }
    store := match w.conn.item with
      | none => w.store
      | some it => w.store.setItem it fun o => o.write (o.data cfg + w.conn.ritem) bytes }

/-- What `read` may return when it is called with room for `size` bytes: on TCP, the next bytes of
the stream, and the end of the stream at its end. -/
def admits (size : ℕ) : ReadResult → Bool
  | .data bytes => 1 ≤ bytes.length ∧ bytes.length ≤ size ∧ (w.conn.udp ∨ bytes <+: w.input)
  | .eof => w.conn.udp ∨ w.input = []
  | .eagain => true
  | .error => true

/-- The bytes that `read` returned have been taken from the stream. -/
def consume (bytes : List UInt8) : Session :=
  if w.conn.udp then w else { w with input := w.input.drop bytes.length }

/-- The end of an event: `core_drive_machine` returns. -/
def stop : Session := { w with running := false }

/-- `read` has failed while a data block is read or swallowed; `updated` says whether `core_update`
succeeds. -/
def readFailed (updated : Bool) : ReadResult → Session
  | .eof => (w.setConn (·.record [.eof])).setState .close
  | .eagain => if updated then w.stop else w.setState .close
  | _ => w.setState .close

/-- The turn in state `CONN_NREAD`; `result` is what `read` returns, if it is called. -/
def turnNread (result : Option ReadResult) (updated : Bool) : Option Session :=
  if w.conn.rlbytes = 0 then
    if result = none then some (w.ascCompleteNread cfg ch) else none
  else
    let tocopy := min w.conn.rbytes w.conn.rlbytes
    let w := (w.fillItem cfg (w.conn.rbuf.unread.take tocopy)).setConn fun c =>
      { c with rbuf := c.rbuf.skip tocopy }
    if w.conn.rlbytes = 0 then
      if result = none then some w else none
    else
      match result with
      | none => none
      | some r =>
        if w.admits w.conn.rlbytes r then
          match r with
          | .data bytes => some ((w.consume bytes).fillItem cfg bytes)
          | r => some (w.readFailed updated r)
        else none

/-- Bytes are swallowed. -/
def swallowed (bytes : List UInt8) : Session :=
  w.setConn fun c => { c with sbytes := c.sbytes - bytes.length, rdata := c.rdata ++ bytes }

/-- The turn in state `CONN_SWALLOW`. -/
def turnSwallow (result : Option ReadResult) (updated : Bool) : Option Session :=
  if w.conn.sbytes = 0 then
    if result = none then
      some ((w.setConn fun c => { c.record [.skip c.rdata] with rdata := [] }).setState .newCmd)
    else none
  else if w.conn.rbytes > 0 then
    if result = none then
      let tocopy := min w.conn.rbytes w.conn.sbytes
      some ((w.swallowed (w.conn.rbuf.unread.take tocopy)).setConn fun c =>
        { c with rbuf := c.rbuf.skip tocopy })
    else none
  else
    match result with
    | none => none
    | some r =>
      if w.admits (min w.conn.rbuf.size w.conn.sbytes) r then
        match r with
        | .data bytes => some ((w.consume bytes).swallowed bytes)
        | r => some (w.readFailed updated r)
      else none

/-! ### Reading -/

/-- Whether the loop of `core_read_tcp` has room to read into. -/
inductive Room where
  /-- There is room, after this number of reallocations. -/
  | ok (c : Conn) (numAllocs : ℕ)
  /-- The buffer was doubled four times. -/
  | stop
  /-- The buffer could not be doubled. -/
  | oom (c : Conn)

/-- The start of a turn of the loop of `core_read_tcp`. -/
def readRoom (c : Conn) (numAllocs : ℕ) : Room :=
  if c.rbytes ≥ c.rbuf.size then
    if numAllocs = 4 then .stop
    else
      match c.alloc with
      | (false, c) => .oom c
      | (true, c) => .ok { c with rbuf := c.rbuf.resize (c.rbuf.size * 2) } (numAllocs + 1)
  else .ok c numAllocs

/-- `core_read_tcp` returns because the buffer could not be doubled. -/
def readOom (c : Conn) : Conn :=
  { ({ c with rbuf := { c.rbuf with bytes := 0 } }.record [.dropped]).ascRsp .serverError with
    writeAndGo := .close }

/-- The loop of `core_read_tcp`; `results` are what the calls of `read` return. -/
def readTcpLoop :
    (results : List ReadResult) → (numAllocs : ℕ) → (gotdata : ReadOutcome) → Session →
    Option (ReadOutcome × Session)
  | [], numAllocs, gotdata, w =>
    match readRoom w.conn numAllocs with
    | .stop => some (gotdata, w)
    | .oom c => some (.memoryError, { w with conn := readOom c })
    | .ok _ _ => none
  | r :: results, numAllocs, gotdata, w =>
    match readRoom w.conn numAllocs with
    | .stop => none
    | .oom _ => none
    | .ok c numAllocs =>
      let w := { w with conn := c }
      let size := c.rbuf.size - c.rbytes
      if w.admits size r then
        match r with
        | .data bytes =>
          let w := (w.consume bytes).setConn fun c => { c with rbuf := c.rbuf.receive bytes }
          if bytes.length = size then readTcpLoop results numAllocs .dataReceived w
          else if results = [] then some (.dataReceived, w) else none
        | .eof =>
          if results = [] then some (.error, w.setConn (·.record [.eof])) else none
        | .eagain => if results = [] then some (gotdata, w) else none
        | .error => if results = [] then some (.error, w) else none
      else none

/-- `core_read_tcp`. -/
def coreReadTcp (results : List ReadResult) : Option (ReadOutcome × Session) :=
  readTcpLoop results 0 .noDataReceived (w.setConn fun c =>
    if c.rbuf.curr ≠ 0 then { c with rbuf := c.rbuf.moveToFront } else c)

/-- `core_read_udp`; `datagram` is what `recvfrom` returns, `none` if it fails. -/
def coreReadUdp (datagram : Option (List UInt8)) : ReadOutcome × Session :=
  match datagram.map (List.take w.conn.rbuf.size) with
  | none => (.noDataReceived, w)
  | some buf =>
    if buf.length > udpHeaderSize then
      let w := w.setConn fun c =>
        { c with udpRid := (buf.getD 0 0).toNat * 256 + (buf.getD 1 0).toNat }
      if buf.getD 4 0 ≠ 0 ∨ buf.getD 5 0 ≠ 1 then
        (.noDataReceived, w.setConn fun c => (c.record [.dropped]).ascRsp .serverError)
      else
        (.dataReceived, w.setConn fun c =>
          { c with rbuf := { c.rbuf with curr := 0, bytes := 0 }.receive (buf.drop udpHeaderSize) })
    else (.noDataReceived, w)

/-- `core_read`, given the outcome. -/
def coreRead (r : ReadOutcome × Session) : Session :=
  match r.1 with
  | .noDataReceived => r.2.setState .wait
  | .dataReceived => r.2.setState .parse
  | .error => r.2.setState .close
  | .memoryError => r.2

/-! ### Writing -/

/-- `item_remove` for what remains in the item list. -/
def releaseItems : Session :=
  { w with
    conn := w.conn.dropItems
    store := w.conn.itemsLeft.foldl Store.itemRemove w.store }

/-- The turn in the states `CONN_WRITE` and `CONN_MWRITE` from `core_transmit` on. -/
def transmit (res : Wire.SendResult) : Session :=
  let r := w.conn.wire.coreTransmit res
  let w := w.setConn fun c => { c with wire := r.2.2 }
  match r.1 with
  | .complete =>
    if w.conn.state = .mwrite then
      (w.releaseItems.setConn Conn.releaseSuffixes).setState .newCmd
    else w.setConn fun c => { c with writeAndFree := false, state := c.writeAndGo }
  | .incomplete => w
  | .softError => w.stop
  | .hardError =>
    match res with
    | .eagain _ => w.setState .close
    | _ => w.setState (if w.conn.udp then .read else .close)

/-- The simple response is made a message, if that has not been done. -/
def addResponse : Rstatus × Session :=
  if w.conn.state = .write ∧ (w.conn.wire.iovUsed = 0 ∨ w.conn.udp ∧ w.conn.wire.iovUsed = 1) then
    let r := w.conn.connAddIovs [w.conn.wbuf]
    (r.1, { w with conn := r.2 })
  else (.ok, w)

/-- The turn in the states `CONN_WRITE` and `CONN_MWRITE`. -/
def turnWrite (res : Wire.SendResult) : Session :=
  match w.addResponse with
  | (.enomem, w) => w.setState .close
  | (.ok, w) =>
    match if w.conn.udp ∧ w.conn.wire.msgCurr = 0 then w.conn.connBuildUdpHeaders else
        (.ok, w.conn) with
    | (.enomem, c) => { w with conn := c }.setState .close
    | (.ok, c) => { w with conn := c }.transmit res

/-! ### Turns -/

/-- `c->item` is given back. -/
def releaseItem : Session :=
  match w.conn.item with
  | none => w
  | some it => (w.itemRemove it).setConn fun c => { c with item := none }

/-- `core_reset_cmd_handler`. -/
def coreResetCmdHandler : Session :=
  let w := (w.setConn fun c => { c with reqType := .unknown }).releaseItem.setConn Conn.connShrink
  w.setState (if w.conn.rbytes > 0 then .parse else .wait)

/-- `core_close`, with `conn_cleanup`. -/
def coreClose : Session :=
  let w := (w.releaseItem.releaseItems.setConn Conn.releaseSuffixes).stop
  if w.conn.udp then w.setState .read else w.setConn fun c => { c with freed := true }

/-- What the environment answers in one turn. -/
inductive Io where
  /-- `CONN_WAIT`: whether `core_update` succeeds. -/
  | wait (updated : Bool)
  /-- `CONN_READ` on TCP: what the calls of `read` return. -/
  | readTcp (results : List ReadResult)
  /-- `CONN_READ` on UDP: what `recvfrom` returns. -/
  | readUdp (datagram : Option (List UInt8))
  /-- `CONN_PARSE`. -/
  | parse (e : Circumstances)
  /-- `CONN_NEW_CMD`: whether `core_update` succeeds, if it is called. -/
  | newCmd (updated : Bool)
  /-- `CONN_NREAD`: what `read` returns if it is called, and whether `core_update` succeeds. -/
  | nread (result : Option ReadResult) (updated : Bool) (ch : Choice)
  /-- `CONN_SWALLOW`: what `read` returns if it is called, and whether `core_update` succeeds. -/
  | swallow (result : Option ReadResult) (updated : Bool)
  /-- `CONN_WRITE` and `CONN_MWRITE`: what `sendmsg` returns, if it is called. -/
  | send (result : Wire.SendResult)
  /-- `CONN_CLOSE`. -/
  | close

/-- One turn of the loop of `core_drive_machine`. -/
def turn (io : Io) : Option Session :=
  match w.conn.state, io with
  | .wait, .wait updated =>
    some (if updated then (w.setState .read).stop else w.setState .close)
  | .read, .readTcp results =>
    if w.conn.udp then none else (w.coreReadTcp results).map coreRead
  | .read, .readUdp datagram => if w.conn.udp then some
      (coreRead (w.coreReadUdp datagram)) else none
  | .parse, .parse e => w.coreParse cfg e
  | .newCmd, .newCmd updated =>
    let w : Session := { w with nreqs := w.nreqs - 1 }
    some (if w.nreqs ≥ 0 then w.coreResetCmdHandler
      else if w.conn.rbytes > 0 ∧ ¬ updated then (w.setState .close).stop
      else w.stop)
  | .nread, .nread result updated ch => w.turnNread cfg ch result updated
  | .swallow, .swallow result updated => w.turnSwallow result updated
  | .write, .send res | .mwrite, .send res => some (w.turnWrite res)
  | .close, .close => some w.coreClose
  | _, _ => none

end Session

/-- The steps of a session. -/
inductive SessionLabel where
  /-- An event on the socket: `core_drive_machine` is called, with `reqs_per_event` requests. -/
  | event (reqsPerEvent : ℕ)
  /-- A turn. -/
  | turn (io : Session.Io)
  /-- The rest of the server changes the store and the settings. -/
  | world (st : Store) (set : Settings)

/-- A connection as a machine. -/
def session (cfg : Config) : Machine Session SessionLabel Unit where
  step w l :=
    match l with
    | .event n =>
      if w.running ∨ w.conn.freed then none else some ((), { w with running := true, nreqs := n })
    | .turn io => if w.running then (w.turn cfg io).map fun w => ((), w) else none
    | .world st set => some ((), { w with store := st, set := set })

end Twemcache
