import Agatha.Net.SendQueue

/-! The frames of TCP packets (`lib/net/tcp.c`), and what the other end takes from them. -/

namespace Agatha.Net

/-- What `send_tcp_pkt` reads of a connection besides its packets and their acknowledgement, and the address of the
binding. -/
structure TcpEnds where
  addrLoc : List UInt8
  portRem : ℕ
  macRem : List UInt8
  addrRem : List UInt8
  windowSizeLoc : ℕ

def putLong (x : ℕ) : List UInt8 := putWord (x / 2 ^ 16) ++ putWord x

def pseudoHdr (src dst : List UInt8) (length : ℕ) : List UInt8 :=
  src ++ dst ++ [0, UInt8.ofNat ipTcp] ++ putWord length

def tcpHdr (portLoc : ℕ) (e : TcpEnds) (ack : ℕ) (p : SentPkt) (csum : ℕ) : List UInt8 :=
  putWord portLoc ++ putWord e.portRem ++ putLong p.seq ++ putLong ack ++ putWord (5 <<< 12 ||| p.flags) ++
    putWord e.windowSizeLoc ++ putWord csum ++ [0, 0]

/-- What `send_tcp_pkt` puts in the frame behind the headers of `create_ipv4_pkt`. -/
def tcpBody (s : Host) (e : TcpEnds) (ack : ℕ) (p : SentPkt) : List UInt8 :=
  let hdr := tcpHdr s.portLoc e ack p
  let sum := csumIpContinue (pseudoHdr e.addrLoc e.addrRem (20 + p.len)) 0
  hdr (csumIpFinish (csumIpContinue (hdr 0 ++ p.data) sum)) ++ p.data

def tcpFrame (s : Host) (e : TcpEnds) (ack : ℕ) (p : SentPkt) : List UInt8 :=
  createIpv4Pkt s e.macRem e.addrRem ipTcp (20 + p.len) ++ tcpBody s e ack p

def SendCon.frame (s : Host) (e : TcpEnds) (c : SendCon) : Option (List UInt8) :=
  (trimPkts c.sending).head?.map (tcpFrame s e c.rcv.ack)

structure TcpFields where
  portSrc : ℕ
  portDst : ℕ
  seq : ℕ
  ack : ℕ
  flags : ℕ
  window : ℕ
  data : List UInt8
  len : ℕ

def tcpFields (q : IpPkt) : TcpFields :=
  { portSrc := word q.data 0, portDst := word q.data 2, seq := tcpSeq q, ack := tcpAck q, flags := tcpFlags q
    window := word q.data 14, data := tcpData q, len := lenSub q.len (tcpHdrLen q) }

structure TcpEnds.Proper (e : TcpEnds) : Prop where
  addrLoc : e.addrLoc.length = 4
  port : e.portRem < 2 ^ 16
  mac : e.macRem.length = 6
  addr : e.addrRem.length = 4
  window : e.windowSizeLoc < 2 ^ 16

structure SentPkt.Proper (p : SentPkt) : Prop where
  seq : p.seq < 2 ^ 32
  flags : p.flags < 0x1000
  len : 20 + (20 + p.len) ≤ 65535

variable {τ : Type} {s : Host} {e : TcpEnds} {c : SendCon} {p : SentPkt} {q : IpPkt} {next : List SentPkt}
variable {ack x : ℕ} {heap : Heap} {hs : Handlers τ} {net : NetDev τ}

theorem tcpHdr_length {portLoc csum : ℕ} : (tcpHdr portLoc e ack p csum).length = 20 := rfl

theorem tcpBody_length : (tcpBody s e ack p).length = 20 + p.len := by
  unfold tcpBody
  rw [List.length_append, tcpHdr_length]
  rfl

theorem word_putLong (h : x < 2 ^ 32) : ((UInt8.ofNat (x / 2 ^ 16 / 256)).toNat * 256 +
    (UInt8.ofNat (x / 2 ^ 16)).toNat) * 2 ^ 16 + ((UInt8.ofNat (x / 256)).toNat * 256 + (UInt8.ofNat x).toNat) = x := by
  simp only [UInt8.toNat_ofNat']
  omega

theorem hdrFlags_eq (h : x < 0x1000) : 5 <<< 12 ||| x = 5 * 2 ^ 12 + x := by
  rw [Nat.shiftLeft_eq, Nat.mul_comm, Nat.two_pow_add_eq_or_of_lt h]

theorem tcpBody_fields (hport : s.portLoc < 2 ^ 16) (he : e.Proper) (hp : p.Proper) (hack : ack < 2 ^ 32)
    (hdata : q.data = tcpBody s e ack p) (hlen : q.len = 20 + p.len) : tcpFields q =
      { portSrc := s.portLoc, portDst := e.portRem, seq := p.seq, ack := ack, flags := p.flags
        window := e.windowSizeLoc, data := p.data, len := p.len } := by
  have hflags := hdrFlags_eq hp.flags
  have hlt := hp.flags
  have hfit := hp.len
  unfold tcpBody at hdata
  dsimp only at hdata
  generalize csumIpFinish _ = csum at hdata
  have hhigh : byteAt q.data 12 = (UInt8.ofNat ((5 <<< 12 ||| p.flags) / 256)).toNat := by rw [hdata]; rfl
  have hlow : byteAt q.data 13 = (UInt8.ofNat (5 <<< 12 ||| p.flags)).toNat := by rw [hdata]; rfl
  rw [hflags, UInt8.toNat_ofNat'] at hhigh hlow
  have hhdr : tcpHdrLen q = 20 := by
    unfold tcpHdrLen
    rw [hhigh]
    omega
  have hf : tcpFlags q = p.flags := by
    unfold tcpFlags
    rw [hhigh, hlow]
    omega
  have hd : tcpData q = p.data := by
    have hsub : lenSub (20 + p.len) 20 = p.len := by
      unfold lenSub
      omega
    have hdrop : q.data.drop 20 = p.data := by rw [hdata]; rfl
    have hl : q.data.length = 20 + p.data.length := by rw [hdata, List.length_append, tcpHdr_length]
    unfold tcpData
    rw [hhdr, hlen, hsub, copyOut_eq (by rw [hl]; rfl), hdrop]
    exact List.take_length
  have hsrc : word q.data 0 = s.portLoc := by rw [hdata]; exact word_putWord hport
  have hdst : word q.data 2 = e.portRem := by rw [hdata]; exact word_putWord he.port
  have hwin : word q.data 14 = e.windowSizeLoc := by rw [hdata]; exact word_putWord he.window
  have hseq : tcpSeq q = p.seq := by unfold tcpSeq; rw [hdata]; exact word_putLong hp.seq
  have hackq : tcpAck q = ack := by unfold tcpAck; rw [hdata]; exact word_putLong hack
  have hl : lenSub q.len (tcpHdrLen q) = p.len := by
    unfold lenSub
    rw [hhdr, hlen]
    omega
  unfold tcpFields
  rw [hsrc, hdst, hseq, hackq, hf, hwin, hd, hl]

theorem tcp_segment_decodes (hs' : s.Proper) (he : e.Proper) (hp : p.Proper) (hack : c.rcv.ack < 2 ^ 32)
    (hsend : trimPkts c.sending = p :: next) (hmac : net.mac = e.macRem) (hip : net.ipv4 = e.addrRem)
    (hnew : heap.ok net.calls = true) (hdata : heap.ok net.next.calls = true) :
    ∃ frame q, c.frame s e = some frame ∧ netProcessPkt heap hs frame net = hs.tcp q net.next.next ∧
      q.srcIpv4 = s.ipv4 ∧ q.frags = [] ∧ tcpFields q =
        { portSrc := s.portLoc, portDst := e.portRem, seq := p.seq, ack := c.rcv.ack, flags := p.flags
          window := e.windowSizeLoc, data := p.data, len := p.len } := by
  have henc : Encloses s net.mac net.ipv4 ipTcp (tcpBody s e c.rcv.ack p) (tcpFrame s e c.rcv.ack p) := by
    rw [hmac, hip]
    exact createIpv4Pkt_encloses hs' he.mac he.addr (by decide) tcpBody_length hp.len
  have hreceive := henc.receive hnew hdata
  set q : IpPkt := { ipPktNew s.ipv4 net.ipv4 ipTcp (ipIdent (tcpFrame s e c.rcv.ack p)) with
    data := tcpBody s e c.rcv.ack p, len := (tcpBody s e c.rcv.ack p).length }
  have hlen : q.len = 20 + p.len := tcpBody_length
  refine ⟨tcpFrame s e c.rcv.ack p, q, ?_, ?_, rfl, rfl, tcpBody_fields hs'.port he hp hack rfl hlen⟩
  · unfold SendCon.frame
    rw [hsend]
    rfl
  · unfold netProcessPkt handleIpv4
    rw [if_neg (by rw [henc.type]; decide), if_pos henc.type, hreceive]
    dsimp only
    have hproto : q.protocol = ipTcp := rfl
    unfold handOver
    rw [hproto, if_neg (by decide), if_pos rfl]

def oddPkt : SentPkt := { seq := 0xfffffffe, flags := 0xfff, data := [1, 2, 255] }

def oddCon : SendCon :=
  { state := .established, nextSeq := 1, sending := [oddPkt]
    rcv := { ack := 0x80000001, closing := false, offsetIntoWaiting := 0, recvWait := [] } }

def oddHost : Host := { mac := [2, 0, 0, 0, 0, 1], ipv4 := [10, 0, 0, 1], ident := 7, portLoc := 0xabcd, junk := 9 }

def oddEnds : TcpEnds :=
  { addrLoc := [10, 0, 0, 1], portRem := 80, macRem := [2, 0, 0, 0, 0, 2], addrRem := [10, 0, 0, 2]
    windowSizeLoc := 1024 }

theorem oddEnds_proper : oddEnds.Proper := ⟨rfl, by decide, rfl, rfl, by decide⟩

theorem tcp_segment_decodes_odd :
    ∃ frame q, oddCon.frame oddHost oddEnds = some frame ∧
      netProcessPkt ⟨fun _ => true, fun _ => []⟩ ⟨fun _ net => net, fun _ net => net, fun _ net => net⟩ frame
        (⟨[2, 0, 0, 0, 0, 2], [10, 0, 0, 2], [], [], 0⟩ : NetDev Unit) = ⟨[2, 0, 0, 0, 0, 2], [10, 0, 0, 2], [], [], 2⟩ ∧
      q.srcIpv4 = [10, 0, 0, 1] ∧ q.frags = [] ∧
      tcpFields q = ⟨0xabcd, 80, 0xfffffffe, 0x80000001, 0xfff, 1024, [1, 2, 255], 3⟩ :=
  @tcp_segment_decodes Unit oddHost oddEnds oddCon oddPkt [] _ _ _ ⟨rfl, rfl, by decide⟩ oddEnds_proper ⟨by decide, by decide, by decide⟩ (by decide) rfl
    rfl rfl rfl rfl

end Agatha.Net
