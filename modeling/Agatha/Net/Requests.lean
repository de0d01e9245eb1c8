import Agatha.Net.Server

namespace Agatha.Net

def netBind : ℕ := 28
def netUnbind : ℕ := 29
def netTcpConnect : ℕ := 30
def netTcpDisconnect : ℕ := 31
def netTcpListen : ℕ := 32
def netWrite : ℕ := 33
def netRead : ℕ := 34

structure NetReq where
  type : ℕ
  chanId : ℤ
  proto : ℕ
  portLoc : ℕ
  addrRem : List UInt8
  portRem : ℕ
  conId : ℕ
  len : ℕ

def findBinding (pid chanId : ℤ) (s : Server) : Option ℕ :=
  s.net.bindings.findIdx? fun b => decide (b.procId = pid ∧ b.id = chanId)

def emptyTcp : TcpBinding := { cons := [], listenCon := none, nextConId := 0 }

def handleBind (w : World) (pid : ℤ) (rq : NetReq) (s : Server) : Server :=
  if w.alloc s.io.calls = false then { s with io := s.io.next.reply pid }
  else
    let s := { s with io := s.io.next, nBindingId := s.nBindingId + 1 }
    let failed := { s with io := s.io.reply pid }
    -- `ip_bind`
    if findBindingIp rq.proto rq.portLoc s.net.bindings ≠ none then failed
    else if w.alloc s.io.calls = false then { s with io := s.io.next.reply pid }
    else if rq.proto ≠ protoUdp ∧ rq.proto ≠ protoTcp then { s with io := s.io.next.reply pid }
    else
      { s with
        net := { s.net with bindings := { procId := pid, id := s.nBindingId - 1, proto := rq.proto
                                          portLoc := rq.portLoc, tcp := emptyTcp, offsetIntoWaiting := 0
                                          recvWait := [] } :: s.net.bindings }
        io := s.io.next.reply pid }

def handleUnbind (pid : ℤ) (rq : NetReq) (s : Server) : Server :=
  match findBinding pid rq.chanId s with
  | none => s
  | some i => { s with net := { s.net with bindings := s.net.bindings.eraseIdx i }, io := s.io.reply pid }

def withBinding (pid : ℤ) (rq : NetReq) (s : Server)
    (f : ℕ → Binding TcpBinding → Server → Server) : Server :=
  match findBinding pid rq.chanId s with
  | none => s
  | some i =>
    match s.net.bindings[i]? with
    | none => s
    | some b => f i b s

def ipTcpListen (w : World) (i : ℕ) (b : Binding TcpBinding) (s : Server) : Server :=
  if w.alloc s.io.calls then
    let c : Con := { binding := b.id, id := b.tcp.nextConId, portRem := 0, addrRem := []
                     macRem := List.replicate 6 0, state := .listen, nextSeq := 0x1000, sending := []
                     rcv := { ack := 0, closing := false, offsetIntoWaiting := 0, recvWait := [] } }
    s.setTcp i b { b.tcp with listenCon := some c, nextConId := b.tcp.nextConId + 1 } s.io.next
  else { s with io := s.io.next }

def handleTcpListen (w : World) (pid : ℤ) (rq : NetReq) (s : Server) : Server :=
  withBinding pid rq s fun i b s => if b.proto = protoTcp then ipTcpListen w i b s else s

def ipTcpConnect (w : World) (rq : NetReq) (i : ℕ) (b : Binding TcpBinding) (s : Server) : Server :=
  if w.alloc s.io.calls then
    let c : Con := { binding := b.id, id := b.tcp.nextConId, portRem := rq.portRem, addrRem := rq.addrRem
                     macRem := List.replicate 6 0, state := .synSent, nextSeq := 0x1000, sending := []
                     rcv := { ack := 0, closing := false, offsetIntoWaiting := 0, recvWait := [] } }
    let (c, io) := addPkt w tcpFlagSyn 0 (c, s.io.next)
    arpRequest w rq.addrRem (.connect b.id c.id)
      (s.setTcp i b { b.tcp with cons := c :: b.tcp.cons, nextConId := b.tcp.nextConId + 1 } io)
  else { s with io := s.io.next }

def handleTcpConnect (w : World) (pid : ℤ) (rq : NetReq) (s : Server) : Server :=
  withBinding pid rq s fun i b s => if b.proto = protoTcp then ipTcpConnect w rq i b s else s

/-- `find_tcp_con`, for a request that continues with the connection; it gives back the connection. -/
def withCon (rq : NetReq) (i : ℕ) (b : Binding TcpBinding) (s : Server) (f : Con → Io → Con × Io) : Server :=
  match b.tcp.cons.findIdx? fun c => decide (c.id = rq.conId) with
  | none => s
  | some j =>
    match b.tcp.cons[j]? with
    | none => s
    | some c =>
      let (c, io) := f c s.io
      s.setTcp i b (b.tcp.setCon j c) io

def ipTcpDisconnect (w : World) (c : Con) (io : Io) : Con × Io :=
  if c.rcv.recvWait ≠ [] then (c, io)
  else
    let c := { c with rcv := { c.rcv with closing := true } }
    if c.state = .established ∨ c.state = .closeWait then
      sendTcpPkt w (addPkt w (tcpFlagAck + tcpFlagFin) 0 (c, io))
    else sendTcpPkt w (c, io)

def handleTcpDisconnect (w : World) (pid : ℤ) (rq : NetReq) (s : Server) : Server :=
  withBinding pid rq s fun i b s =>
    if b.proto = protoTcp then withCon rq i b s (ipTcpDisconnect w) else s

def ipReadUdpReq (w : World) (rq : NetReq) (i : ℕ) (b : Binding TcpBinding) (s : Server) : Server :=
  match s.io.frameMapAnywhere w with
  | (none, io) => { s with io := io.replyCap b.procId }
  | (some cap, io) =>
    { s with
      net := { s.net with bindings := s.net.bindings.set i (ipReadUdp rq.len b).2 }
      io := (io.unmapAddr w cap).replyCap b.procId }

structure ReadRsp where
  ok : Bool
  data : List UInt8

/-- The rest of `ip_read_tcp` when the slot is mapped. -/
def readMapped (w : World) (len : ℕ) (c : Con) (io : Io) : List UInt8 × Con × Io :=
  let (data, recvWait, o, contAck) := readLoop c.rcv.recvWait c.rcv.offsetIntoWaiting c.rcv.ack len
  let rcv := { c.rcv with recvWait := recvWait, offsetIntoWaiting := o }
  let (c, io) :=
    if c.rcv.ack < contAck then ackAndSend w ({ c with rcv := { rcv with ack := contAck } }, io)
    else ({ c with rcv := rcv }, io)
  if c.rcv.closing = true ∧ c.rcv.recvWait = [] then
    (data, ackAndSend w ({ c.bumpAck with state := .closeWait }, io))
  else (data, c, io)

def ipReadTcpReq (w : World) (pid : ℤ) (rq : NetReq) (c : Con) (io : Io) : Option ReadRsp × Con × Io :=
  if c.state ≠ .established then (some ⟨false, []⟩, c, io.replyCap pid)
  else
    match io.frameMapAnywhere w with
    | (none, io) => (none, c, io)
    | (some cap, io) =>
      let (data, c, io) := readMapped w rq.len c io
      (some ⟨true, data⟩, c, (io.unmapAddr w cap).replyCap pid)

def handleRead (w : World) (pid : ℤ) (rq : NetReq) (s : Server) : Server :=
  withBinding pid rq s fun i b s =>
    if b.proto = protoUdp then ipReadUdpReq w rq i b s
    else if b.proto = protoTcp then withCon rq i b s fun c io => (ipReadTcpReq w b.procId rq c io).2
    else s

def ipWriteUdp (w : World) (rq : NetReq) (b : Binding TcpBinding) (s : Server) : Server :=
  match s.io.frameMapAnywhere w with
  | (none, io) => { s with io := io }
  | (some cap, io) =>
    if w.alloc io.calls then
      arpRequest w rq.addrRem (.udpWrite { procId := b.procId, cap := cap, len := rq.len })
        { s with io := io.next }
    else { s with io := io.next }

def ipWriteTcp (w : World) (pid : ℤ) (rq : NetReq) (c : Con) (io : Io) : Con × Io :=
  if c.state ≠ .established ∨ c.rcv.closing = true then (c, io.replyCap pid)
  else if w.alloc io.calls = false then (c, io.next)
  else
    match io.next.frameMapAnywhere w with
    | (none, io) => (c, io)
    | (some cap, io) =>
      let (c, io) := addPkt w (tcpFlagAck + tcpFlagPsh) rq.len (c, io.unmapAddr w cap)
      let (c, io) := sendTcpPkt w ({ c with nextSeq := (c.nextSeq + rq.len) % 2 ^ 32 }, io)
      (c, io.replyCap pid)

def handleWrite (w : World) (pid : ℤ) (rq : NetReq) (s : Server) : Server :=
  withBinding pid rq s fun i b s =>
    if b.proto = protoUdp then ipWriteUdp w rq b s
    else if b.proto = protoTcp then withCon rq i b s (ipWriteTcp w b.procId rq)
    else s

def netHandleMessage (w : World) (pid : ℤ) (rq : NetReq) (s : Server) : Server :=
  if rq.type = netBind then handleBind w pid rq s
  else if rq.type = netUnbind then handleUnbind pid rq s
  else if rq.type = netTcpListen then handleTcpListen w pid rq s
  else if rq.type = netTcpConnect then handleTcpConnect w pid rq s
  else if rq.type = netTcpDisconnect then handleTcpDisconnect w pid rq s
  else if rq.type = netRead then handleRead w pid rq s
  else if rq.type = netWrite then handleWrite w pid rq s
  else s

/-- What the driver can find when it receives: a message of a client, or a signal with frames. -/
inductive NetEvent
  | message (pid : ℤ) (give : Option (Option Cap)) (rq : NetReq)
  | frames (heap : Heap) (pkts : List (List UInt8))

def NetEvent.run (w : World) (s : Server) : NetEvent → Server
  | .message pid give rq =>
    match s.io.recvCap pid give with
    | none => s
    | some io => netHandleMessage w pid rq { s with io := io }
  | .frames heap pkts =>
    if s.io.slot.isSome then s
    else pkts.foldl (fun s pkt => s.netProcessPkt heap w pkt) s

def NetEvent.Possible (s : Server) : NetEvent → Prop
  | .message pid _ _ => ∀ p ∈ s.io.waiting, p.pid ≠ pid
  | .frames _ _ => True

structure Server.Initial (s : Server) : Prop where
  bindings : s.net.bindings = []
  requests : s.arpRequests = []
  slot : s.io.slot = none
  waiting : s.io.waiting = []
  sent : s.io.sent = []

inductive NetRun (cond : World → Server → NetEvent → Prop) : Server → Prop
  | start {s : Server} (initial : s.Initial) : NetRun cond s
  | turn {s : Server} {w : World} {e : NetEvent} (run : NetRun cond s) (possible : e.Possible s)
      (hcond : cond w s e) : NetRun cond (e.run w s)

end Agatha.Net
