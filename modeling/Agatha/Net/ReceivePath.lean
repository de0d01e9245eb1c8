import Agatha.Library.Traced
import Agatha.Net.Frames

namespace Agatha.Net

/-- `n` bytes from `off` on in a buffer of `size` bytes, or a difference of two lengths. -/
inductive Access
  | bytes (size off n : ℕ)
  | minus (a b : ℕ)
  deriving DecidableEq

def Inside (size off n : ℕ) : Prop := ∀ i < n, off + i < size

def Access.Ok : Access → Prop
  | .bytes size off n => Inside size off n
  | .minus a b => b ≤ a

abbrev Parse (α : Type) : Type := Traced Access α

def Parse.InBounds {α : Type} (x : Parse α) : Prop := x.All Access.Ok

def ethPktSize (len : ℕ) : ℕ := (14 + (14 + len)) % 2 ^ 32

structure Buf where
  size : ℕ
  data : List UInt8

structure Ptr where
  buf : Buf
  off : ℕ

def IpPkt.buf (p : IpPkt) : Buf := ⟨p.len, p.data⟩

structure TcpHdr where
  portSrc : ℕ
  portDst : ℕ
  seq : ℕ
  ack : ℕ
  hdrLen : ℕ
  flags : ℕ

def IpPkt.tcpHdr (p : IpPkt) : TcpHdr :=
  { portSrc := word p.data 0, portDst := word p.data 2, seq := tcpSeq p, ack := tcpAck p
    hdrLen := tcpHdrLen p, flags := tcpFlags p }

def Cap.mapped : Cap → ℕ
  | .frame _ len => len
  | _ => 0

def compared : List UInt8 → List UInt8 → ℕ
  | x :: a, y :: b => if x = y then compared a b + 1 else 1
  | _, _ => 0

namespace Parse

def touch (size off n : ℕ) : Parse Unit := .of () [.bytes size off n]

def lenMinus (a b : ℕ) : Parse ℕ := .of (lenSub a b) [.minus a b]

def byte (b : Buf) (i : ℕ) : Parse ℕ := .of (byteAt b.data i) [.bytes b.size i 1]

def word (b : Buf) (i : ℕ) : Parse ℕ := .of (Net.word b.data i) [.bytes b.size i 2]

def copy (a : Ptr) (n : ℕ) : Parse (List UInt8) := .of (copyOut a.buf.data a.off n) [.bytes a.buf.size a.off n]

def memcmp (a : Ptr) (b : List UInt8) (n : ℕ) : Parse Bool :=
  .of (decide (copyOut a.buf.data a.off n = b)) [.bytes a.buf.size a.off (compared (copyOut a.buf.data a.off n) b)]

/-- `create_ipv4_pkt`, what its caller puts behind the header, and `send_ipv4_pkt`. -/
def sendIpv4Pkt (w : World) (len : ℕ) (body : ℕ → Parse Unit) (io : Io) : Parse (Bool × Io) :=
  let size := ethPktSize (20 + len)
  if w.alloc io.calls then do
    touch size 0 34
    body size
    touch size 0 ((14 + (20 + len)) % 2 ^ 32)
    return (true, { io.next with sent := io.sent ++ [(14 + (20 + len)) % 2 ^ 32] })
  else return (false, io.next)

def tcpBody (len size : ℕ) : Parse Unit := do
  touch size 34 20
  if len > 0 then
    touch len 0 len
    touch size 54 len
  touch 12 0 12
  touch size 34 ((20 + len) % 2 ^ 32)

def sendTcpPkt (w : World) : Con × Io → Parse (Con × Io)
  | (c, io) =>
    match trimSending c.sending with
    | [] => return ({ c with sending := [] }, io)
    | p :: next => do
      let state := if hasFlag p.flags tcpFlagFin then
          match c.state with
          | .established => .finWait1
          | .closeWait => .lastAck
          | state => state
        else c.state
      let f : TcpFrame := { binding := c.binding, con := c.id, addrRem := c.addrRem, portRem := c.portRem
                            seq := p.seq, ack := c.rcv.ack, flags := p.flags, len := p.len }
      let (sent, io) ← sendIpv4Pkt w (20 + f.len) (tcpBody f.len) io
      return ({ c with sending := p :: next, state := state },
        if sent then { io with segments := io.segments ++ [f] } else io)

def ackAndSend (w : World) (x : Con × Io) : Parse (Con × Io) := sendTcpPkt w (addPkt w tcpFlagAck 0 x)

/-- `ip_pkt_free`, which copies the fragments into the packet before it frees them. -/
def ipPktFree (p : IpPkt) : Parse Unit :=
  Traced.fold (fun a _ => do touch a.len 0 a.len; touch p.len a.offset a.len) p.frags ()

def handleTcpFin (w : World) (pid : ℤ) (c : Con) (io : Io) : Parse (Con × Io) :=
  match c.state with
  | .established =>
    let c := { c with state := .closeWait, rcv := { c.rcv with closing := true } }
    if c.rcv.recvWait = [] then ackAndSend w (c.bumpAck, io) else return (c, io)
  | .finWait1 | .finWait2 => ackAndSend w ({ c.bumpAck with state := .timeWait }, io.reply pid)
  | .timeWait => ackAndSend w (c, io)
  | _ => return (c, io)

def handleTcpSyn (w : World) (pid : ℤ) (p : IpPkt) (h : TcpHdr) (mac : Option (List UInt8)) (c : Con) (io : Io) :
    Parse (Con × Io) :=
  match c.state with
  | .synSent => do
    let c := { c with state := .established, rcv := { c.rcv with ack := (h.seq + 1) % 2 ^ 32 }
                      nextSeq := (c.nextSeq + 1) % 2 ^ 32 }
    let (c, io) ← ackAndSend w (c, io)
    return ({ c with state := .established }, io.reply pid)
  | .listen =>
    let c := { c with portRem := h.portSrc, addrRem := p.srcIpv4 }
    match mac with
    | none => do
      ipPktFree p
      return (c, io)
    | some mac =>
      let c := { c with macRem := mac, rcv := { c.rcv with ack := (h.seq + 1) % 2 ^ 32 }, state := .synReceived }
      sendTcpPkt w (addPkt w (tcpFlagSyn + tcpFlagAck) 0 (c, io))
  | _ => return (c, io)

def insertReceivedFor (w : World) (seq : ℕ) (data : Ptr) (len : ℕ) (c : Con) (io : Io) : Parse (Con × Io) :=
  if insertWalk { seq := seq, data := [] } false c.rcv.ack c.rcv.recvWait = none then return (c, io)
  else if w.alloc io.calls = false then return (c, io.next)
  else if len = 0 then return ({ c with rcv := insertReceived { seq := seq, data := [] } c.rcv }, io.next.next)
  else if w.alloc io.next.calls = false then return (c, io.next.next)
  else do
    let bytes ← copy data len
    touch len 0 len
    return ({ c with rcv := insertReceived { seq := seq, data := bytes } c.rcv }, io.next.next)

def handleTcpAckFor (w : World) (pid : ℤ) (isListenCon : Bool) (h : TcpHdr) (data : Ptr) (len : ℕ) (c : Con)
    (io : Io) : Parse (Bool × Con × Io) :=
  match c.state with
  | .lastAck =>
    if h.ack = (c.nextSeq + 1) % 2 ^ 32 then return (false, { c with sending := c.sending.tail }, io)
    else return (false, c, io)
  | .finWait1 =>
    if h.ack = (c.nextSeq + 1) % 2 ^ 32 then
      return (false, { c with nextSeq := (c.nextSeq + 1) % 2 ^ 32, state := .finWait2, sending := c.sending.tail }, io)
    else do
      let x ← sendTcpPkt w (c, io)
      return (false, x)
  | .synReceived =>
    let c := { c with state := .established, nextSeq := (c.nextSeq + 1) % 2 ^ 32 }
    if isListenCon then return (true, c, io.reply pid) else return (false, c, io)
  | .established =>
    if c.rcv.ack < (h.seq + len) % 2 ^ 32 then do
      let x ← insertReceivedFor w h.seq data len c io
      return (false, x)
    else if len > 0 then do
      let x ← ackAndSend w (c, io)
      return (false, x)
    else return (false, c, io)
  | _ => return (false, c, io)

def handleFlags (w : World) (pid : ℤ) (isListenCon : Bool) (mac : Option (List UInt8)) (p : IpPkt) (h : TcpHdr)
    (c : Con) (io : Io) : Parse (Bool × Con × Io) :=
  if hasFlag h.flags tcpFlagRst then return (false, c, io)
  else if hasFlag h.flags tcpFlagFin then do
    let x ← handleTcpFin w pid c io
    return (false, x)
  else if hasFlag h.flags tcpFlagSyn then do
    let x ← handleTcpSyn w pid p h mac c io
    return (false, x)
  else if hasFlag h.flags tcpFlagAck then do
    let len ← lenMinus p.len h.hdrLen
    handleTcpAckFor w pid isListenCon h ⟨p.buf, h.hdrLen⟩ len c io
  else return (false, c, io)

def conInput (w : World) (pid : ℤ) (isListenCon : Bool) (mac : Option (List UInt8)) (p : IpPkt) (h : TcpHdr)
    (c : Con) (io : Io) : Parse (Bool × Con × Io) := do
  -- the window
  let _ ← word p.buf 14
  let c := if hasFlag h.flags tcpFlagAck then { c with sending := dropAcked h.ack c.sending } else c
  let (moved, x) ← handleFlags w pid isListenCon mac p h c io
  ipPktFree p
  let x ← sendTcpPkt w x
  return (moved, x)

def isFrom (p : IpPkt) (h : TcpHdr) (c : Con) : Bool := decide (h.portSrc = c.portRem ∧ p.srcIpv4 = c.addrRem)

def tcpInput (w : World) (mac : Option (List UInt8)) (p : IpPkt) (h : TcpHdr) (pid : ℤ) (t : TcpBinding) (io : Io) :
    Parse (TcpBinding × Io) :=
  match t.cons.findIdx? (isFrom p h) with
  | some j =>
    match t.cons[j]? with
    | none => return (t, io)
    | some c => do
      let (_, c, io) ← conInput w pid false mac p h c io
      return (t.setCon j c, io)
  | none =>
    match t.listenCon with
    | none => do
      ipPktFree p
      return (t, io)
    | some c =>
      if c.state ≠ .listen ∧ isFrom p h c = false then do
        ipPktFree p
        return (t, io)
      else do
        let (moved, c, io) ← conInput w pid true mac p h c io
        return if moved then ({ t with cons := c :: t.cons, listenCon := none }, io)
          else ({ t with listenCon := some c }, io)

def tcpHdr (p : IpPkt) : Parse TcpHdr := do
  let portSrc ← word p.buf 0
  let portDst ← word p.buf 2
  let seqHigh ← word p.buf 4
  let seqLow ← word p.buf 6
  let ackHigh ← word p.buf 8
  let ackLow ← word p.buf 10
  let high ← byte p.buf 12
  let low ← byte p.buf 13
  return { portSrc := portSrc, portDst := portDst, seq := seqHigh * 2 ^ 16 + seqLow
           ack := ackHigh * 2 ^ 16 + ackLow, hdrLen := high / 16 * 4, flags := high % 16 * 256 + low }

def handleTcp (w : World) (p : IpPkt) (s : Server) : Parse Server := do
  let h ← tcpHdr p
  match findBindingIp protoTcp h.portDst s.net.bindings with
  | none =>
    ipPktFree p
    return s
  | some i =>
    match s.net.bindings[i]? with
    | none => return s
    | some b =>
      let (t, io) ← tcpInput w (s.arpMatchIp p.srcIpv4) p h b.procId b.tcp s.io
      return s.setTcp i b t io

def echoBody (p : IpPkt) (len size : ℕ) : Parse Unit := do
  touch size 34 4
  touch p.len 4 4
  touch size 38 4
  touch p.len 8 len
  touch size 42 len
  touch size 34 (8 + len)

def handleEchoRequest (w : World) (p : IpPkt) (s : Server) : Parse Server := do
  let len ← lenMinus p.len 8
  match s.arpMatchIp p.srcIpv4 with
  | none => return s
  | some _ =>
    let (_, io) ← sendIpv4Pkt w (8 + len) (echoBody p len) s.io
    return { s with io := io }

def handleIcmp (w : World) (p : IpPkt) (s : Server) : Parse Server := do
  let type ← byte p.buf 0
  let s ← (if type = 8 then handleEchoRequest w p s else pure s)
  ipPktFree p
  return s

def handleUdp (p : IpPkt) (net : NetDev TcpBinding) : Parse (NetDev TcpBinding) := do
  let portSrc ← word p.buf 0
  let portDst ← word p.buf 2
  let length ← word p.buf 4
  -- the checksum
  let _ ← word p.buf 6
  if length > p.len then return net
  else do
    -- the data is printed
    let len ← lenMinus length 8
    touch p.len 8 len
    match findBindingIp protoUdp portDst net.bindings with
    | none =>
      ipPktFree p
      return net
    | some i => return { net with bindings := net.bindings.modify i fun b =>
        { b with recvWait := b.recvWait ++ [{ p with srcPort := portSrc }] } }

def connectTcpArp (w : World) (binding : ℤ) (con : ℕ) (mac : Ptr) (s : Server) : Parse Server :=
  match s.net.bindings.findIdx? fun b => decide (b.id = binding) with
  | none => return s
  | some i =>
    match s.net.bindings[i]? with
    | none => return s
    | some b =>
      match b.tcp.cons.findIdx? fun c => decide (c.id = con) with
      | none => return s
      | some j =>
        match b.tcp.cons[j]? with
        | none => return s
        | some c => do
          let mac ← copy mac 6
          let (c, io) ← sendTcpPkt w ({ c with macRem := mac }, s.io)
          return s.setTcp i b (b.tcp.setCon j c) io

/-- `udp_write_finish`: the frame of the client is mapped, and what is read of it is what the request says. -/
def udpBody (r : UdpWriteReq) (mac : Ptr) (size : ℕ) : Parse Unit := do
  let _ ← copy mac 6
  touch size 34 8
  touch r.cap.mapped 0 r.len
  touch size 42 r.len

def udpWriteFinish (w : World) (r : UdpWriteReq) (mac : Ptr) (io : Io) : Parse Io := do
  let (sent, io) ← sendIpv4Pkt w (8 + r.len) (udpBody r mac) io
  return if sent then (io.unmapAddr w r.cap).replyCap r.procId else io

def run (w : World) (mac : Ptr) (s : Server) : ArpFunc → Parse Server
  | .connect binding con => connectTcpArp w binding con mac s
  | .udpWrite r => do
    let io ← udpWriteFinish w r mac s.io
    return { s with io := io }

def runRequests (w : World) (mac : Ptr) : List ArpRequest → Server → Parse Server :=
  Traced.fold fun r s => run w mac s r.func

def arpAddEntry (w : World) (ip mac : Ptr) (s : Server) : Parse Server := do
  let addr ← copy ip 4
  let settle (s : Server) : Parse Server :=
    runRequests w mac (s.arpRequests.filter fun r => decide (r.ip = addr))
      { s with arpRequests := s.arpRequests.filter fun r => decide (r.ip ≠ addr) }
  match s.arpEntries.findIdx? fun e => decide (e.ip = addr) with
  | some i =>
    let hw ← copy mac 6
    settle { s with arpEntries := s.arpEntries.set i ⟨addr, hw⟩ }
  | none =>
    if w.alloc s.io.calls then do
      let hw ← copy mac 6
      settle { s with arpEntries := ⟨addr, hw⟩ :: s.arpEntries, io := s.io.next }
    else return { s with io := s.io.next }

def handleArpRequest (w : World) (srcMac srcIpv4 : Ptr) (s : Server) : Parse Server :=
  let size := ethPktSize 28
  if w.alloc s.io.calls then do
    let _ ← copy srcMac 6
    let _ ← copy srcIpv4 4
    touch size 0 42
    arpAddEntry w srcIpv4 srcMac { s with io := s.io.next.sendArp }
  else return { s with io := s.io.next }

def handleArp (w : World) (pkt : Buf) (len : ℕ) (s : Server) : Parse Server :=
  if len < 8 then return s
  else do
    let htype ← word pkt 14
    let ptype ← word pkt 16
    let hlen ← byte pkt 18
    let plen ← byte pkt 19
    let oper ← word pkt 20
    if len < 8 + hlen * 2 + plen * 2 then return s
    else if htype ≠ 1 ∨ ptype ≠ 0x800 then return s
    else do
      let broadcast ← memcmp ⟨pkt, 0⟩ (List.replicate 6 0xff) 6
      if broadcast then do
        let ours ← memcmp ⟨pkt, 38⟩ s.net.ipv4 4
        if ours then handleArpRequest w ⟨pkt, 6⟩ ⟨pkt, 28⟩ s else return s
      else do
        let ours ← memcmp ⟨pkt, 0⟩ s.net.mac 6
        if ours then if oper = 2 then arpAddEntry w ⟨pkt, 28⟩ ⟨pkt, 22⟩ s else return s
        else return s

def body (pkt : Buf) (hdrLen len : ℕ) : Parse (List UInt8) := do
  let data ← copy ⟨pkt, 14 + hdrLen⟩ len
  touch len 0 len
  return data

/-- What `handle_ipv4` does with a fragment when it has a packet to put it into. -/
def insertFrag (heap : Heap) (f : IpPktFrag) (more : Bool) (i : ℕ) (net : NetDev TcpBinding) :
    Option IpPkt × NetDev TcpBinding :=
  match net.pkts[i]? with
  | none => (none, net)
  | some p =>
    let (complete, p) := insertPktFrag heap net.calls p f (!more)
    let net := { net.next with pkts := net.pkts.set i p }
    if complete then (some p, net) else (none, net)

def receiveIpv4 (heap : Heap) (pkt : Buf) (net : NetDev TcpBinding) :
    Parse (Option IpPkt × NetDev TcpBinding) := do
  let forUs ← memcmp ⟨pkt, 0⟩ net.mac 6
  if forUs = false then return (none, net)
  else do
    let ours ← memcmp ⟨pkt, 30⟩ net.ipv4 4
    if ours = false then return (none, net)
    else do
      let verLen ← byte pkt 14
      if verLen / 16 ≠ 4 then return (none, net)
      else do
        let hdrLen := verLen % 16 * 4
        let total ← word pkt 16
        let len ← lenMinus total hdrLen
        let ident ← word pkt 18
        let high ← byte pkt 20
        let low ← byte pkt 21
        let offset := high % 32 * 32 ||| low
        let more := decide (high / 32 % 2 = 1)
        let protocol ← byte pkt 23
        if offset > 0 ∨ more = true then
          if heap.ok net.calls = false then return (none, net.next)
          else if heap.ok net.next.calls = false then return (none, net.next.next)
          else do
            let data ← body pkt hdrLen len
            let src ← copy ⟨pkt, 26⟩ 4
            let dst ← copy ⟨pkt, 30⟩ 4
            let f : IpPktFrag := { offset := offset, len := len, data := data }
            return match getWaitingIpPkt heap src dst protocol ident net.next.next with
              | (none, net) => (none, net)
              | (some i, net) => insertFrag heap f more i net
        else if heap.ok net.calls = false then return (none, net.next)
        else do
          let src ← copy ⟨pkt, 26⟩ 4
          let dst ← copy ⟨pkt, 30⟩ 4
          if heap.ok net.next.calls = false then return (none, net.next.next)
          else do
            let data ← body pkt hdrLen len
            return (some { ipPktNew src dst protocol ident with data := data, len := len }, net.next.next)

/-- The end of `handle_ipv4`. -/
def handOver (w : World) (p : IpPkt) (s : Server) : Parse Server :=
  if p.protocol = ipIcmp then handleIcmp w p s
  else if p.protocol = ipTcp then handleTcp w p s
  else if p.protocol = ipUdp then do
    let net ← handleUdp p s.net
    return { s with net := net }
  else return s

def handleIpv4 (heap : Heap) (w : World) (pkt : Buf) (s : Server) : Parse Server := do
  let (o, net) ← receiveIpv4 heap pkt s.net
  match o with
  | none => return { s with net := net }
  | some p => handOver w p { s with net := net }

def netProcessPkt (heap : Heap) (w : World) (pkt : List UInt8) (s : Server) : Parse Server := do
  let len ← lenMinus pkt.length 14
  let type ← word ⟨pkt.length, pkt⟩ 12
  if type = 0x0806 then handleArp w ⟨pkt.length, pkt⟩ len s
  else if type = 0x0800 then handleIpv4 heap w ⟨pkt.length, pkt⟩ s
  else return s

section Values

variable {heap : Heap} {w : World} {pkt : List UInt8} {p : IpPkt} {s : Server} {io : Io} {c : Con} {t : TcpBinding}
  {mac : Ptr} {hw : Option (List UInt8)} {pid : ℤ} {x : Con × Io} {net : NetDev TcpBinding} {len : ℕ}

@[simp]
theorem copy_val {a : Ptr} {n : ℕ} : (copy a n).val = copyOut a.buf.data a.off n := (rfl)

@[simp]
theorem word_val {b : Buf} {i : ℕ} : (word b i).val = Net.word b.data i := (rfl)

@[simp]
theorem byte_val {b : Buf} {i : ℕ} : (byte b i).val = byteAt b.data i := (rfl)

@[simp]
theorem memcmp_val {a : Ptr} {b : List UInt8} {n : ℕ} :
    (memcmp a b n).val = decide (copyOut a.buf.data a.off n = b) := (rfl)

@[simp]
theorem lenMinus_val {a b : ℕ} : (lenMinus a b).val = lenSub a b := (Traced.val_of)

@[simp]
theorem tcpHdr_val : (tcpHdr p).val = p.tcpHdr := (rfl)

theorem sendIpv4Pkt_val {body : ℕ → Parse Unit} : (sendIpv4Pkt w len body io).val = io.sendIpv4Pkt w len := by
  unfold sendIpv4Pkt Io.sendIpv4Pkt
  simp only [Traced.val_ite, Traced.val_bind, Traced.val_pure]

theorem sendTcpPkt_val : (sendTcpPkt w x).val = Net.sendTcpPkt w x := by
  obtain ⟨c, io⟩ := x
  unfold sendTcpPkt Net.sendTcpPkt Io.sendSegment
  dsimp only
  cases trimSending c.sending with
  | nil => rfl
  | cons p next =>
    dsimp only
    rw [Traced.val_bind, sendIpv4Pkt_val]
    generalize io.sendIpv4Pkt w (20 + p.len) = sent
    rfl

theorem ackAndSend_val : (ackAndSend w x).val = Net.ackAndSend w x := sendTcpPkt_val

theorem handleTcpFin_val : (handleTcpFin w pid c io).val = Net.handleTcpFin w pid c io := by
  unfold handleTcpFin Net.handleTcpFin
  cases c.state with
  | established => simp only [Traced.val_ite, Traced.val_pure, ackAndSend_val]
  | finWait1 | finWait2 | timeWait => exact ackAndSend_val
  | _ => rfl

theorem handleTcpSyn_val :
    (handleTcpSyn w pid p p.tcpHdr hw c io).val = Net.handleTcpSyn w pid p (tcpSeq p) (Net.word p.data 0) hw c io := by
  unfold handleTcpSyn Net.handleTcpSyn
  cases c.state with
  | synSent => simp only [Traced.val_bind, Traced.val_pure, ackAndSend_val, IpPkt.tcpHdr]
  | listen =>
    cases hw with
    | none => rfl
    | some hw => exact sendTcpPkt_val
  | _ => rfl

theorem insertWalk_eq_none_congr {a b : TcpPkt} (h : a.seq = b.seq) (gap : Bool) (n : ℕ) (l : List TcpPkt) :
    insertWalk a gap n l = none ↔ insertWalk b gap n l = none := by
  induction l generalizing gap n with
  | nil => simp [insertWalk]
  | cons o l ih =>
    unfold insertWalk
    rw [h]
    dsimp only
    split_ifs <;> simp [ih]

theorem copyOut_eq_nil {b : List UInt8} {o n : ℕ} : copyOut b o n = [] ↔ n = 0 := by
  simp [copyOut]

theorem insertReceivedFor_val {seq : ℕ} {data : Ptr} : (insertReceivedFor w seq data len c io).val =
    Net.insertReceivedFor w { seq := seq, data := copyOut data.buf.data data.off len } c io := by
  have hwalk : insertWalk { seq := seq, data := copyOut data.buf.data data.off len } false c.rcv.ack c.rcv.recvWait =
      none ↔ insertWalk { seq := seq, data := [] } false c.rcv.ack c.rcv.recvWait = none :=
    insertWalk_eq_none_congr (by rfl) _ _ _
  unfold insertReceivedFor Net.insertReceivedFor
  simp only [hwalk, ne_eq, copyOut_eq_nil]
  by_cases hlen : len = 0
  · subst hlen
    split_ifs <;> simp_all [copyOut]
  · split_ifs <;> first | rfl | simp_all

theorem handleTcpAckFor_val {b : Bool} {data : Ptr} : (handleTcpAckFor w pid b p.tcpHdr data len c io).val =
    Net.handleTcpAckFor w pid b (tcpSeq p) (tcpAck p) (copyOut data.buf.data data.off len) c io := by
  have hn : (copyOut data.buf.data data.off len).length = len := by simp [copyOut]
  unfold handleTcpAckFor Net.handleTcpAckFor
  rw [hn]
  simp only [ne_eq, copyOut_eq_nil]
  cases c.state with
  | established =>
    have hpos : len > 0 ↔ ¬ len = 0 := Nat.pos_iff_ne_zero
    simp only [hpos, Traced.val_ite, Traced.val_bind, insertReceivedFor_val, ackAndSend_val]
    rfl
  | finWait1 =>
    simp only [Traced.val_ite, Traced.val_bind, sendTcpPkt_val]
    rfl
  | synReceived =>
    simp only [Traced.val_ite]
    rfl
  | lastAck =>
    simp only [Traced.val_ite]
    rfl
  | _ => rfl

theorem handleFlags_val {b : Bool} : (handleFlags w pid b hw p p.tcpHdr c io).val =
    if hasFlag (tcpFlags p) tcpFlagRst then (false, c, io)
    else if hasFlag (tcpFlags p) tcpFlagFin then (false, Net.handleTcpFin w pid c io)
    else if hasFlag (tcpFlags p) tcpFlagSyn then
      (false, Net.handleTcpSyn w pid p (tcpSeq p) (Net.word p.data 0) hw c io)
    else if hasFlag (tcpFlags p) tcpFlagAck then
      Net.handleTcpAckFor w pid b (tcpSeq p) (tcpAck p) (tcpData p) c io
    else (false, c, io) := by
  have hflags : p.tcpHdr.flags = tcpFlags p := rfl
  have hhdr : p.tcpHdr.hdrLen = tcpHdrLen p := rfl
  have hdata : p.buf.data = p.data := rfl
  unfold handleFlags tcpData
  simp only [Traced.val_ite, Traced.val_bind, Traced.val_pure, handleTcpFin_val, handleTcpSyn_val, lenMinus_val,
    handleTcpAckFor_val, hflags, hhdr, hdata]

theorem conInput_val {b : Bool} :
    (conInput w pid b hw p p.tcpHdr c io).val = Net.conInput w pid b hw p c io := by
  unfold conInput Net.conInput
  simp only [Traced.val_bind, handleFlags_val, sendTcpPkt_val, Traced.val_pure]
  rfl

theorem tcpInput_val : (tcpInput w hw p p.tcpHdr pid t io).val = Net.tcpInput w hw p pid t io := by
  unfold tcpInput Net.tcpInput
  have hfrom : isFrom p p.tcpHdr = Con.isFrom p := rfl
  rw [hfrom]
  cases t.cons.findIdx? (Con.isFrom p) with
  | some j =>
    dsimp only
    cases t.cons[j]? with
    | none => rfl
    | some c => simp only [Traced.val_bind, Traced.val_pure, conInput_val]
  | none =>
    cases t.listenCon with
    | none => rfl
    | some c => simp only [Traced.val_ite, Traced.val_bind, Traced.val_pure, conInput_val]

theorem handleTcp_val : (handleTcp w p s).val = Net.handleTcp w p s := by
  unfold handleTcp Net.handleTcp
  rw [Traced.val_bind, tcpHdr_val]
  have hdst : p.tcpHdr.portDst = Net.word p.data 2 := rfl
  rw [hdst]
  cases findBindingIp protoTcp (Net.word p.data 2) s.net.bindings with
  | none => rfl
  | some i =>
    dsimp only
    cases s.net.bindings[i]? with
    | none => rfl
    | some b => simp only [Traced.val_bind, Traced.val_pure, tcpInput_val]

theorem handleEchoRequest_val : (handleEchoRequest w p s).val =
    match s.arpMatchIp p.srcIpv4 with
    | none => s
    | some _ => { s with io := (s.io.sendIpv4Pkt w (8 + lenSub p.len 8)).2 } := by
  unfold handleEchoRequest
  rw [Traced.val_bind, lenMinus_val]
  cases s.arpMatchIp p.srcIpv4 with
  | none => rfl
  | some mac => simp only [Traced.val_bind, Traced.val_pure, sendIpv4Pkt_val]

theorem handleIcmp_val : (handleIcmp w p s).val = Net.handleIcmp w p s := by
  have htype : (byte p.buf 0).val = byteAt p.data 0 := byte_val
  unfold handleIcmp Net.handleIcmp
  simp only [Traced.val_bind, Traced.val_ite, Traced.val_pure, handleEchoRequest_val, htype] <;>
    cases s.arpMatchIp p.srcIpv4 <;> rfl

theorem handleUdp_val : (handleUdp p net).val = Net.handleUdp p net := by
  have hdst : (word p.buf 2).val = Net.word p.data 2 := rfl
  have hlen : (word p.buf 4).val = Net.word p.data 4 := rfl
  unfold handleUdp Net.handleUdp
  simp only [Traced.val_bind, hdst, hlen]
  split_ifs
  · rfl
  · rw [Traced.val_bind, Traced.val_bind]
    cases findBindingIp protoUdp (Net.word p.data 2) net.bindings with
    | none => rfl
    | some i => rfl

theorem connectTcpArp_val {binding : ℤ} {con : ℕ} : (connectTcpArp w binding con mac s).val =
    Net.connectTcpArp w binding con (copyOut mac.buf.data mac.off 6) s := by
  unfold connectTcpArp Net.connectTcpArp
  cases s.net.bindings.findIdx? fun b => decide (b.id = binding) with
  | none => rfl
  | some i =>
    dsimp only
    cases s.net.bindings[i]? with
    | none => rfl
    | some b =>
      dsimp only
      cases b.tcp.cons.findIdx? fun c => decide (c.id = con) with
      | none => rfl
      | some j =>
        dsimp only
        cases b.tcp.cons[j]? with
        | none => rfl
        | some c => simp only [Traced.val_bind, Traced.val_pure, copy_val, sendTcpPkt_val]

theorem run_val {f : ArpFunc} : (run w mac s f).val = f.run w (copyOut mac.buf.data mac.off 6) s := by
  cases f with
  | connect binding con => exact connectTcpArp_val
  | udpWrite r =>
    unfold run ArpFunc.run udpWriteFinish Net.udpWriteFinish
    simp only [Traced.val_bind, Traced.val_pure, sendIpv4Pkt_val]

theorem runRequests_val {l : List ArpRequest} :
    (runRequests w mac l s).val = Net.runRequests w (copyOut mac.buf.data mac.off 6) l s := by
  induction l generalizing s with
  | nil => rfl
  | cons r l ih =>
    have hrun : (run w mac s r.func).val = r.func.run w (copyOut mac.buf.data mac.off 6) s := run_val
    unfold runRequests Traced.fold Net.runRequests
    rw [Traced.val_bind, hrun]
    exact ih

theorem arpAddEntry_val {ip : Ptr} : (arpAddEntry w ip mac s).val =
    Net.arpAddEntry w (copyOut ip.buf.data ip.off 4) (copyOut mac.buf.data mac.off 6) s := by
  unfold arpAddEntry Net.arpAddEntry
  simp only [Traced.val_bind, copy_val]
  cases s.arpEntries.findIdx? fun e => decide (e.ip = copyOut ip.buf.data ip.off 4) with
  | some i => simp only [Traced.val_bind, copy_val, runRequests_val]
  | none => simp only [Traced.val_ite, Traced.val_bind, Traced.val_pure, copy_val, runRequests_val]

theorem handleArpRequest_val {srcMac srcIpv4 : Ptr} : (handleArpRequest w srcMac srcIpv4 s).val =
    Net.handleArpRequest w (copyOut srcMac.buf.data srcMac.off 6) (copyOut srcIpv4.buf.data srcIpv4.off 4) s := by
  unfold handleArpRequest Net.handleArpRequest
  simp only [Traced.val_ite, Traced.val_bind, Traced.val_pure, arpAddEntry_val]

theorem handleArp_val : (handleArp w ⟨pkt.length, pkt⟩ (lenSub pkt.length 14) s).val = Net.handleArp w pkt s := by
  unfold handleArp Net.handleArp
  simp only [Traced.val_ite, Traced.val_bind, Traced.val_pure, handleArpRequest_val, arpAddEntry_val]
  simp only [word_val, byte_val, memcmp_val, decide_eq_true_eq]

theorem body_val {hdrLen : ℕ} : (body ⟨pkt.length, pkt⟩ hdrLen len).val = copyOut pkt (14 + hdrLen) len := (rfl)

theorem receiveIpv4_val : (receiveIpv4 heap ⟨pkt.length, pkt⟩ net).val = Net.receiveIpv4 heap pkt net := by
  have hoffset : byteAt pkt 20 % 32 * 32 ||| byteAt pkt 21 = ipOffset pkt := rfl
  have hmore : decide (byteAt pkt 20 / 32 % 2 = 1) = ipMore pkt := rfl
  have hhdr : byteAt pkt 14 % 16 * 4 = ipHdrLen pkt := rfl
  have hlen : lenSub (Net.word pkt 16) (ipHdrLen pkt) = ipLen pkt := by unfold ipLen; rfl
  have hsrc : copyOut pkt 26 4 = ipSrc pkt := rfl
  have hdst : copyOut pkt 30 4 = ipDst pkt := rfl
  have hprotocol : byteAt pkt 23 = ipProtocol pkt := rfl
  have hident : Net.word pkt 18 = ipIdent pkt := rfl
  have hbody : copyOut pkt (14 + ipHdrLen pkt) (ipLen pkt) = ipBody pkt := by unfold ipBody; rfl
  unfold receiveIpv4 Net.receiveIpv4
  simp only [Traced.val_ite, Traced.val_bind, Traced.val_pure]
  simp only [word_val, byte_val, memcmp_val, copy_val, lenMinus_val, body_val, decide_eq_false_iff_not, hoffset, hmore,
    hhdr, hlen, hsrc, hdst, hprotocol, hident, hbody, ne_eq]
  obtain ⟨i, net'⟩ := getWaitingIpPkt heap (ipSrc pkt) (ipDst pkt) (ipProtocol pkt) (ipIdent pkt) net.next.next
  cases i with
  | none => rfl
  | some i =>
    dsimp only [insertFrag] <;> cases net'.pkts[i]? <;> rfl

theorem handOver_val : (handOver w p s).val = s.handOver w p := by
  unfold handOver Server.handOver
  simp only [Traced.val_ite, Traced.val_bind, handleIcmp_val, handleTcp_val, handleUdp_val]
  rfl

theorem handleIpv4_val : (handleIpv4 heap w ⟨pkt.length, pkt⟩ s).val =
    match Net.receiveIpv4 heap pkt s.net with
    | (none, net) => { s with net := net }
    | (some p, net) => { s with net := net }.handOver w p := by
  unfold handleIpv4
  rw [Traced.val_bind, receiveIpv4_val]
  split
  next o net h =>
    rw [h]
    cases o with
    | none => rfl
    | some p => exact handOver_val

theorem netProcessPkt_val : (netProcessPkt heap w pkt s).val = s.netProcessPkt heap w pkt := by
  unfold netProcessPkt Server.netProcessPkt
  simp only [Traced.val_ite, Traced.val_bind, word_val, lenMinus_val, handleArp_val, handleIpv4_val]
  rfl

end Values

end Parse

end Agatha.Net
