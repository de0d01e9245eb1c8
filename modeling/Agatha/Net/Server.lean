import Agatha.Net.Udp
import Agatha.Net.Tcp

/-!
The network server: requests of clients (`lib/net/net.c`, `tcp.c`, `udp.c`) and frames from the device
(`arp.c`, `icmp.c`, `ip.c`). Of a request its decoded fields are kept, of a frame that is sent its
length, and of memory that is mapped the capability that the mapping took.
-/

namespace Agatha.Net

/-- What a capability slot can hold, as far as the server can tell. -/
inductive Cap
  | frame (pa len : ℕ)
  | untyped
  | other

structure Client where
  pid : ℤ
  accepts : Bool
  deriving DecidableEq

structure World where
  alloc : ℕ → Bool
  map : ℕ → Bool
  unmap : ℕ → Bool

/-- The header of a frame that `send_tcp_pkt` makes for a connection, and how much data is behind it. -/
structure TcpFrame where
  binding : ℤ
  con : ℕ
  addrRem : List UInt8
  portRem : ℕ
  seq : ℕ
  ack : ℕ
  flags : ℕ
  len : ℕ
  deriving DecidableEq

/-- What the server shares with the rest of the system. `sent` has the lengths that `send_pkt` got, and `segments`
the TCP frames among them. -/
structure Io where
  slot : Option Cap
  waiting : List Client
  replied : List ℤ
  sent : List ℕ
  segments : List TcpFrame
  calls : ℕ

def Io.next (io : Io) : Io := { io with calls := io.calls + 1 }

/-- `recv_cap`, when `pid` sends a message with a capability (`some (some c)`), with a slot that is empty
or with none. -/
def Io.recvCap (pid : ℤ) (give : Option (Option Cap)) (io : Io) : Option Io :=
  match io.slot with
  | some _ => none
  | none => some { io with slot := give.join, waiting := io.waiting ++ [⟨pid, give.isSome⟩] }

def Io.reply (pid : ℤ) (io : Io) : Io :=
  if io.waiting.any fun p => decide (p.pid = pid) then
    { io with waiting := io.waiting.eraseP fun p => decide (p.pid = pid), replied := io.replied ++ [pid] }
  else io

def Io.replyCap (pid : ℤ) (io : Io) : Io :=
  match io.waiting.find? fun p => decide (p.pid = pid) with
  | none => io
  | some p => if p.accepts then { io.reply pid with slot := none } else io.reply pid

def Io.frameInfo (io : Io) : Option (ℕ × ℕ) :=
  match io.slot with
  | some (.frame pa len) => some (pa, len)
  | _ => none

def Io.frameMapAnywhere (w : World) (io : Io) : Option Cap × Io :=
  match io.frameInfo with
  | none => (none, io)
  | some (pa, len) =>
    if w.map io.calls then (some (.frame pa len), { io.next with slot := none }) else (none, io.next)

def Io.unmapAddr (w : World) (c : Cap) (io : Io) : Io :=
  match io.slot with
  | none | some .untyped => if w.unmap io.calls then { io.next with slot := some c } else io.next
  | _ => io

def Io.sendIpv4Pkt (w : World) (len : ℕ) (io : Io) : Bool × Io :=
  if w.alloc io.calls then (true, { io.next with sent := io.sent ++ [(14 + (20 + len)) % 2 ^ 32] })
  else (false, io.next)

def Io.sendSegment (w : World) (f : TcpFrame) (io : Io) : Io :=
  let (sent, io) := io.sendIpv4Pkt w (20 + f.len)
  if sent then { io with segments := io.segments ++ [f] } else io

def tcpFlagFin : ℕ := 1
def tcpFlagSyn : ℕ := 2
def tcpFlagRst : ℕ := 4
def tcpFlagPsh : ℕ := 8
def tcpFlagAck : ℕ := 16

def hasFlag (flags flag : ℕ) : Bool := decide (flags / flag % 2 = 1)

inductive TcpState
  | listen
  | synSent
  | synReceived
  | established
  | finWait1
  | finWait2
  | closeWait
  | lastAck
  | timeWait
  deriving DecidableEq

structure TcpSeg where
  seq : ℕ
  flags : ℕ
  len : ℕ

structure Con where
  binding : ℤ
  id : ℕ
  portRem : ℕ
  addrRem : List UInt8
  macRem : List UInt8
  state : TcpState
  nextSeq : ℕ
  sending : List TcpSeg
  rcv : TcpCon

structure TcpBinding where
  cons : List Con
  listenCon : Option Con
  nextConId : ℕ

def TcpBinding.setCon (t : TcpBinding) (j : ℕ) (c : Con) : TcpBinding := { t with cons := t.cons.set j c }

/-- The loop of `send_tcp_pkt` that drops empty segments in front of others. -/
def trimSending : List TcpSeg → List TcpSeg
  | [] => []
  | [p] => [p]
  | p :: o :: next =>
    if p.len > 0 ∨ hasFlag p.flags tcpFlagFin ∨ hasFlag p.flags tcpFlagSyn then p :: o :: next
    else trimSending (o :: next)

def sendTcpPkt (w : World) : Con × Io → Con × Io
  | (c, io) =>
    match trimSending c.sending with
    | [] => ({ c with sending := [] }, io)
    | p :: next =>
      let state := if hasFlag p.flags tcpFlagFin then
          match c.state with
          | .established => .finWait1
          | .closeWait => .lastAck
          | state => state
        else c.state
      let f : TcpFrame := { binding := c.binding, con := c.id, addrRem := c.addrRem, portRem := c.portRem
                            seq := p.seq, ack := c.rcv.ack, flags := p.flags, len := p.len }
      ({ c with sending := p :: next, state := state }, io.sendSegment w f)

def addPkt (w : World) (flags len : ℕ) : Con × Io → Con × Io
  | (c, io) =>
    if w.alloc io.calls then
      ({ c with sending := c.sending ++ [{ seq := c.nextSeq, flags := flags, len := len }] }, io.next)
    else (c, io.next)

def ackAndSend (w : World) (x : Con × Io) : Con × Io := sendTcpPkt w (addPkt w tcpFlagAck 0 x)

def Con.bumpAck (c : Con) : Con := { c with rcv := { c.rcv with ack := (c.rcv.ack + 1) % 2 ^ 32 } }

def handleTcpFin (w : World) (pid : ℤ) (c : Con) (io : Io) : Con × Io :=
  match c.state with
  | .established =>
    let c := { c with state := .closeWait, rcv := { c.rcv with closing := true } }
    if c.rcv.recvWait = [] then ackAndSend w (c.bumpAck, io) else (c, io)
  | .finWait1 | .finWait2 => ackAndSend w ({ c.bumpAck with state := .timeWait }, io.reply pid)
  | .timeWait => ackAndSend w (c, io)
  | _ => (c, io)

/-- `handle_tcp_syn`; `mac` is what `arp_match_ip` finds for the packet's source. -/
def handleTcpSyn (w : World) (pid : ℤ) (p : IpPkt) (seq portSrc : ℕ) (mac : Option (List UInt8)) (c : Con)
    (io : Io) : Con × Io :=
  match c.state with
  | .synSent =>
    let c := { c with state := .established, rcv := { c.rcv with ack := (seq + 1) % 2 ^ 32 }
                      nextSeq := (c.nextSeq + 1) % 2 ^ 32 }
    let (c, io) := ackAndSend w (c, io)
    ({ c with state := .established }, io.reply pid)
  | .listen =>
    let c := { c with portRem := portSrc, addrRem := p.srcIpv4 }
    match mac with
    | none => (c, io)
    | some mac =>
      let c := { c with macRem := mac, rcv := { c.rcv with ack := (seq + 1) % 2 ^ 32 }, state := .synReceived }
      sendTcpPkt w (addPkt w (tcpFlagSyn + tcpFlagAck) 0 (c, io))
  | _ => (c, io)

def insertReceivedFor (w : World) (t : TcpPkt) (c : Con) (io : Io) : Con × Io :=
  if insertWalk t false c.rcv.ack c.rcv.recvWait = none then (c, io)
  else if w.alloc io.calls = false then (c, io.next)
  else if t.data ≠ [] ∧ w.alloc io.next.calls = false then (c, io.next.next)
  else ({ c with rcv := insertReceived t c.rcv }, io.next.next)

/-- `handle_tcp_ack`, and whether the connection that was listened for is one of the others now. -/
def handleTcpAckFor (w : World) (pid : ℤ) (isListenCon : Bool) (seq ack : ℕ) (data : List UInt8) (c : Con)
    (io : Io) : Bool × Con × Io :=
  match c.state with
  | .lastAck =>
    -- `tcp_con_free` finds that the connection is not closed
    if ack = (c.nextSeq + 1) % 2 ^ 32 then (false, { c with sending := c.sending.tail }, io)
    else (false, c, io)
  | .finWait1 =>
    if ack = (c.nextSeq + 1) % 2 ^ 32 then
      (false, { c with nextSeq := (c.nextSeq + 1) % 2 ^ 32, state := .finWait2, sending := c.sending.tail }, io)
    else (false, sendTcpPkt w (c, io))
  | .synReceived =>
    let c := { c with state := .established, nextSeq := (c.nextSeq + 1) % 2 ^ 32 }
    if isListenCon then (true, c, io.reply pid) else (false, c, io)
  | .established =>
    if c.rcv.ack < (seq + data.length) % 2 ^ 32 then
      (false, insertReceivedFor w { seq := seq, data := data } c io)
    else if data ≠ [] then (false, ackAndSend w (c, io))
    else (false, c, io)
  | _ => (false, c, io)

def dropAcked (ack : ℕ) : List TcpSeg → List TcpSeg
  | [] => []
  | t :: next =>
    if ack < (t.seq + t.len) % 2 ^ 32 ∨ hasFlag t.flags tcpFlagFin then t :: next else dropAcked ack next

def tcpSeq (p : IpPkt) : ℕ := word p.data 4 * 2 ^ 16 + word p.data 6
def tcpAck (p : IpPkt) : ℕ := word p.data 8 * 2 ^ 16 + word p.data 10
def tcpHdrLen (p : IpPkt) : ℕ := byteAt p.data 12 / 16 * 4
def tcpFlags (p : IpPkt) : ℕ := byteAt p.data 12 % 16 * 256 + byteAt p.data 13
def tcpData (p : IpPkt) : List UInt8 := copyOut p.data (tcpHdrLen p) (lenSub p.len (tcpHdrLen p))

/-- `handle_tcp` from where it has the connection. -/
def conInput (w : World) (pid : ℤ) (isListenCon : Bool) (mac : Option (List UInt8)) (p : IpPkt) (c : Con)
    (io : Io) : Bool × Con × Io :=
  let flags := tcpFlags p
  let c := if hasFlag flags tcpFlagAck then { c with sending := dropAcked (tcpAck p) c.sending } else c
  let (moved, x) :=
    if hasFlag flags tcpFlagRst then (false, c, io)
    else if hasFlag flags tcpFlagFin then (false, handleTcpFin w pid c io)
    else if hasFlag flags tcpFlagSyn then
      (false, handleTcpSyn w pid p (tcpSeq p) (word p.data 0) mac c io)
    else if hasFlag flags tcpFlagAck then
      handleTcpAckFor w pid isListenCon (tcpSeq p) (tcpAck p) (tcpData p) c io
    else (false, c, io)
  (moved, sendTcpPkt w x)

def Con.isFrom (p : IpPkt) (c : Con) : Bool := decide (word p.data 0 = c.portRem ∧ p.srcIpv4 = c.addrRem)

/-- `handle_tcp` from where it has the binding. -/
def tcpInput (w : World) (mac : Option (List UInt8)) (p : IpPkt) (pid : ℤ) (t : TcpBinding) (io : Io) :
    TcpBinding × Io :=
  match t.cons.findIdx? (Con.isFrom p) with
  | some j =>
    match t.cons[j]? with
    | none => (t, io)
    | some c =>
      let (_, c, io) := conInput w pid false mac p c io
      (t.setCon j c, io)
  | none =>
    match t.listenCon with
    | none => (t, io)
    | some c =>
      if c.state ≠ .listen ∧ c.isFrom p = false then (t, io)
      else
        let (moved, c, io) := conInput w pid true mac p c io
        if moved then ({ t with cons := c :: t.cons, listenCon := none }, io)
        else ({ t with listenCon := some c }, io)

structure UdpWriteReq where
  procId : ℤ
  cap : Cap
  len : ℕ

inductive ArpFunc
  | connect (binding : ℤ) (con : ℕ)
  | udpWrite (r : UdpWriteReq)

structure ArpRequest where
  ip : List UInt8
  func : ArpFunc

structure ArpEntry where
  ip : List UInt8
  mac : List UInt8

structure Server where
  net : NetDev TcpBinding
  arpEntries : List ArpEntry
  arpRequests : List ArpRequest
  nBindingId : ℤ
  io : Io

def Server.setTcp (i : ℕ) (b : Binding TcpBinding) (t : TcpBinding) (io : Io) (s : Server) : Server :=
  { s with net := { s.net with bindings := s.net.bindings.set i { b with tcp := t } }, io := io }

def Server.arpMatchIp (ip : List UInt8) (s : Server) : Option (List UInt8) :=
  (s.arpEntries.find? fun e => decide (e.ip = ip)).map ArpEntry.mac

def connectTcpArp (w : World) (binding : ℤ) (con : ℕ) (mac : List UInt8) (s : Server) : Server :=
  match s.net.bindings.findIdx? fun b => decide (b.id = binding) with
  | none => s
  | some i =>
    match s.net.bindings[i]? with
    | none => s
    | some b =>
      match b.tcp.cons.findIdx? fun c => decide (c.id = con) with
      | none => s
      | some j =>
        match b.tcp.cons[j]? with
        | none => s
        | some c =>
          let (c, io) := sendTcpPkt w ({ c with macRem := mac }, s.io)
          s.setTcp i b (b.tcp.setCon j c) io

def udpWriteFinish (w : World) (r : UdpWriteReq) (io : Io) : Io :=
  let (sent, io) := io.sendIpv4Pkt w (8 + r.len)
  if sent then (io.unmapAddr w r.cap).replyCap r.procId else io

def ArpFunc.run (w : World) (mac : List UInt8) (s : Server) : ArpFunc → Server
  | .connect binding con => connectTcpArp w binding con mac s
  | .udpWrite r => { s with io := udpWriteFinish w r s.io }

theorem ArpFunc.run_lists {w : World} {f : ArpFunc} {mac : List UInt8} {s : Server} :
    (f.run w mac s).arpEntries = s.arpEntries ∧ (f.run w mac s).arpRequests = s.arpRequests := by
  cases f with
  | connect bid con =>
    change (connectTcpArp w bid con mac s).arpEntries = _ ∧ (connectTcpArp w bid con mac s).arpRequests = _
    unfold connectTcpArp
    repeat' split
    all_goals exact ⟨rfl, rfl⟩
  | udpWrite u => exact ⟨rfl, rfl⟩

def Io.sendArp (io : Io) : Io := { io with sent := io.sent ++ [(14 + 28) % 2 ^ 32] }

def arpRequest (w : World) (ip : List UInt8) (func : ArpFunc) (s : Server) : Server :=
  match s.arpMatchIp ip with
  | some mac => func.run w mac s
  | none =>
    if w.alloc s.io.calls = false then { s with io := s.io.next }
    else if w.alloc s.io.next.calls = false then { s with io := s.io.next.next }
    else { s with arpRequests := ⟨ip, func⟩ :: s.arpRequests, io := s.io.next.next.sendArp }

/-- The loop of `arp_add_entry` over the requests. -/
def runRequests (w : World) (mac : List UInt8) : List ArpRequest → Server → Server
  | [], s => s
  | r :: next, s => runRequests w mac next (r.func.run w mac s)

def arpAddEntry (w : World) (ip mac : List UInt8) (s : Server) : Server :=
  let settle (s : Server) : Server :=
    runRequests w mac (s.arpRequests.filter fun r => decide (r.ip = ip))
      { s with arpRequests := s.arpRequests.filter fun r => decide (r.ip ≠ ip) }
  match s.arpEntries.findIdx? fun e => decide (e.ip = ip) with
  | some i => settle { s with arpEntries := s.arpEntries.set i ⟨ip, mac⟩ }
  | none =>
    if w.alloc s.io.calls then settle { s with arpEntries := ⟨ip, mac⟩ :: s.arpEntries, io := s.io.next }
    else { s with io := s.io.next }

def handleArpRequest (w : World) (srcMac srcIpv4 : List UInt8) (s : Server) : Server :=
  if w.alloc s.io.calls then arpAddEntry w srcIpv4 srcMac { s with io := s.io.next.sendArp }
  else { s with io := s.io.next }

def handleArp (w : World) (pkt : List UInt8) (s : Server) : Server :=
  let len := lenSub pkt.length 14
  if len < 8 then s
  else if len < 8 + byteAt pkt 18 * 2 + byteAt pkt 19 * 2 then s
  else if word pkt 14 ≠ 1 ∨ word pkt 16 ≠ 0x800 then s
  else if copyOut pkt 0 6 = List.replicate 6 0xff then
    if copyOut pkt 38 4 = s.net.ipv4 then handleArpRequest w (copyOut pkt 6 6) (copyOut pkt 28 4) s else s
  else if copyOut pkt 0 6 = s.net.mac then
    if word pkt 20 = 2 then arpAddEntry w (copyOut pkt 28 4) (copyOut pkt 22 6) s else s
  else s

def handleIcmp (w : World) (p : IpPkt) (s : Server) : Server :=
  if byteAt p.data 0 = 8 then
    match s.arpMatchIp p.srcIpv4 with
    | none => s
    | some _ => { s with io := (s.io.sendIpv4Pkt w (8 + lenSub p.len 8)).2 }
  else s

def handleTcp (w : World) (p : IpPkt) (s : Server) : Server :=
  match findBindingIp protoTcp (word p.data 2) s.net.bindings with
  | none => s
  | some i =>
    match s.net.bindings[i]? with
    | none => s
    | some b =>
      let (t, io) := tcpInput w (s.arpMatchIp p.srcIpv4) p b.procId b.tcp s.io
      s.setTcp i b t io

/-- The end of `handle_ipv4`. -/
def Server.handOver (w : World) (p : IpPkt) (s : Server) : Server :=
  if p.protocol = ipIcmp then handleIcmp w p s
  else if p.protocol = ipTcp then handleTcp w p s
  else if p.protocol = ipUdp then { s with net := handleUdp p s.net }
  else s

def Server.netProcessPkt (heap : Heap) (w : World) (pkt : List UInt8) (s : Server) : Server :=
  if word pkt 12 = 0x0806 then handleArp w pkt s
  else if word pkt 12 = 0x0800 then
    match receiveIpv4 heap pkt s.net with
    | (none, net) => { s with net := net }
    | (some p, net) => { s with net := net }.handOver w p
  else s

theorem map_set_same {α β : Type*} {f : α → β} {l : List α} {i : ℕ} {a b : α} (hi : l[i]? = some a) (h : f b = f a) :
    (l.set i b).map f = l.map f := by
  obtain ⟨hlt, rfl⟩ := List.getElem?_eq_some_iff.mp hi
  have hlt' : i < (l.map f).length := by rwa [List.length_map]
  rw [List.map_set, h, ← List.getElem_map f (h := hlt'), List.set_getElem_self]

section Kept

variable {w : World} {s : Server} {p : IpPkt} {mac ip pkt : List UInt8} {i : ℕ} {b : Binding TcpBinding} {t : TcpBinding}

def Server.kept (s : Server) : List IpPkt × List (List IpPkt) × ℕ :=
  (s.net.pkts, s.net.bindings.map Binding.recvWait, s.net.calls)

theorem setTcp_kept {io : Io} (hi : s.net.bindings[i]? = some b) : (s.setTcp i b t io).kept = s.kept := by
  unfold Server.kept Server.setTcp
  dsimp only
  rw [map_set_same hi]
  rfl

theorem connectTcpArp_kept {bid : ℤ} {con : ℕ} : (connectTcpArp w bid con mac s).kept = s.kept := by
  unfold connectTcpArp
  split
  · rfl
  · split
    · rfl
    · rename_i hi
      split
      · rfl
      · split
        · rfl
        · exact setTcp_kept hi

theorem runRequests_kept {todo : List ArpRequest} : (runRequests w mac todo s).kept = s.kept := by
  induction todo generalizing s with
  | nil => rfl
  | cons r next ih =>
    unfold runRequests
    rw [ih]
    cases r.func with
    | connect bid con => exact connectTcpArp_kept
    | udpWrite u => rfl

theorem arpAddEntry_kept : (arpAddEntry w ip mac s).kept = s.kept := by
  unfold arpAddEntry
  dsimp only
  split
  · rw [runRequests_kept]
    rfl
  · split_ifs
    · rw [runRequests_kept]
      rfl
    · rfl

theorem handleArp_kept : (handleArp w pkt s).kept = s.kept := by
  unfold handleArp handleArpRequest
  dsimp only
  split_ifs
  · rfl
  · rfl
  · rfl
  · rw [arpAddEntry_kept]
    rfl
  · rfl
  · rfl
  · exact arpAddEntry_kept
  · rfl
  · rfl

theorem handleTcp_kept : (handleTcp w p s).kept = s.kept := by
  unfold handleTcp
  split
  · rfl
  · split
    · rfl
    · rename_i hi
      exact setTcp_kept hi

theorem handleIcmp_kept : (handleIcmp w p s).kept = s.kept := by
  unfold handleIcmp
  split_ifs
  · split <;> rfl
  · rfl

end Kept

end Agatha.Net
