import Agatha.Net.Ip

/-! UDP from the sender's frame to the reads of the receiver (`lib/net/udp.c`). -/

namespace Agatha.Net

variable {τ : Type}

def csumIpContinue : List UInt8 → ℕ → ℕ
  | [], sum => sum
  | [x], sum => sum + x.toNat * 256
  | x :: y :: h, sum => csumIpContinue h (sum + (x.toNat * 256 + y.toNat))

def csumIpFinish (sum : ℕ) : ℕ :=
  if sum > 0xffff then csumIpFinish (sum % 2 ^ 16 + sum / 2 ^ 16) else 0xffff - sum

/-- A host that sends, and what is in memory where `create_ipv4_pkt` writes nothing. -/
structure Host where
  mac : List UInt8
  ipv4 : List UInt8
  ident : ℕ
  portLoc : ℕ
  junk : UInt8

def createIpv4Pkt (s : Host) (dstMac dstIp : List UInt8) (proto dataLen : ℕ) : List UInt8 :=
  let hdr (csum : ℕ) : List UInt8 :=
    [0x45, s.junk] ++ putWord (20 + dataLen) ++ putWord s.ident ++ [0, 0, 0xff, UInt8.ofNat proto] ++
      putWord csum ++ s.ipv4 ++ dstIp
  dstMac ++ s.mac ++ putWord 0x0800 ++ hdr (csumIpFinish (csumIpContinue (hdr 0) 0))

def sendUdpPkt (s : Host) (macRem addrRem : List UInt8) (portRem : ℕ) (data : List UInt8) : List UInt8 :=
  createIpv4Pkt s macRem addrRem ipUdp (8 + data.length) ++
    (putWord s.portLoc ++ putWord portRem ++ putWord (8 + data.length) ++ [0, 0] ++ data)

structure UdpRsp where
  data : List UInt8
  portRem : ℕ
  addrRem : List UInt8

def ipReadUdp (len : ℕ) (b : Binding τ) : UdpRsp × Binding τ :=
  match b.recvWait with
  | [] => ({ data := [], portRem := 0, addrRem := [0, 0, 0, 0] }, b)
  | p :: next =>
    let o := b.offsetIntoWaiting
    let l := if len > lenSub (lenSub p.len 8) o then lenSub (lenSub p.len 8) o else len
    ({ data := copyOut p.data (8 + o) l, portRem := p.srcPort, addrRem := p.srcIpv4 },
      if (o + l) % 2 ^ 32 < lenSub p.len 8 then { b with offsetIntoWaiting := o + l }
      else { b with offsetIntoWaiting := 0, recvWait := next })

section Frames

variable {s : Host} {macRem addrRem data : List UInt8} {portRem x : ℕ}

structure Host.Proper (s : Host) : Prop where
  mac : s.mac.length = 6
  ipv4 : s.ipv4.length = 4
  port : s.portLoc < 2 ^ 16

theorem eq_six {l : List UInt8} (h : l.length = 6) : ∃ a b c d e f, l = [a, b, c, d, e, f] := by
  match l, h with
  | [a, b, c, d, e, f], _ => exact ⟨a, b, c, d, e, f, rfl⟩

theorem eq_four {l : List UInt8} (h : l.length = 4) : ∃ a b c d, l = [a, b, c, d] := by
  match l, h with
  | [a, b, c, d], _ => exact ⟨a, b, c, d, rfl⟩

theorem word_putWord (h : x < 2 ^ 16) : (UInt8.ofNat (x / 256)).toNat * 256 + (UInt8.ofNat x).toNat = x := by
  rw [UInt8.toNat_ofNat', UInt8.toNat_ofNat']
  omega

structure Reads (s : Host) (macRem addrRem : List UInt8) (body pkt : List UInt8) : Prop where
  type : word pkt 12 = 0x0800
  mac : copyOut pkt 0 6 = macRem
  dst : ipDst pkt = addrRem
  src : ipSrc pkt = s.ipv4
  version : byteAt pkt 14 / 16 = 4
  offset : ipOffset pkt = 0
  more : ipMore pkt = false
  protocol : ipProtocol pkt = ipUdp
  len : ipLen pkt = body.length
  body : ipBody pkt = body

/-- What `handle_ipv4` reads from `body` behind the headers of `create_ipv4_pkt`. -/
structure Encloses (s : Host) (macRem addrRem : List UInt8) (proto : ℕ) (body pkt : List UInt8) : Prop where
  type : word pkt 12 = 0x0800
  mac : copyOut pkt 0 6 = macRem
  dst : ipDst pkt = addrRem
  src : ipSrc pkt = s.ipv4
  version : byteAt pkt 14 / 16 = 4
  offset : ipOffset pkt = 0
  more : ipMore pkt = false
  protocol : ipProtocol pkt = proto
  len : ipLen pkt = body.length
  body : ipBody pkt = body

theorem createIpv4Pkt_encloses {body : List UInt8} {proto n : ℕ} (hs : s.Proper) (hmac : macRem.length = 6)
    (haddr : addrRem.length = 4) (hproto : proto < 256) (hn : body.length = n) (hip : 20 + n ≤ 65535) :
    Encloses s macRem addrRem proto body (createIpv4Pkt s macRem addrRem proto n ++ body) := by
  obtain ⟨m0, m1, m2, m3, m4, m5, hm⟩ := eq_six hs.mac
  obtain ⟨i0, i1, i2, i3, hi⟩ := eq_four hs.ipv4
  obtain ⟨r0, r1, r2, r3, r4, r5, rfl⟩ := eq_six hmac
  obtain ⟨d0, d1, d2, d3, rfl⟩ := eq_four haddr
  unfold createIpv4Pkt
  dsimp only
  rw [hm, hi]
  generalize csumIpFinish _ = csum
  set pkt : List UInt8 := [r0, r1, r2, r3, r4, r5] ++ [m0, m1, m2, m3, m4, m5] ++ putWord 2048 ++
    ([0x45, s.junk] ++ putWord (20 + n) ++ putWord s.ident ++ [0, 0, 0xff, UInt8.ofNat proto] ++
      putWord csum ++ [i0, i1, i2, i3] ++ [d0, d1, d2, d3]) ++ body with hpkt
  have hhdr : ipHdrLen pkt = 20 := by
    have hbyte : byteAt pkt 14 = (0x45 : UInt8).toNat := rfl
    unfold ipHdrLen
    rw [hbyte]
    decide
  have htotal : word pkt 16 = 20 + n := by
    have hword : word pkt 16 = (UInt8.ofNat ((20 + n) / 256)).toNat * 256 + (UInt8.ofNat (20 + n)).toNat := rfl
    rw [hword, word_putWord (by omega)]
  have hiplen : ipLen pkt = body.length := by
    unfold ipLen lenSub
    rw [hhdr, htotal, hn]
    omega
  have hpktlen : pkt.length = 34 + body.length := by
    rw [hpkt]
    simp [putWord]
    omega
  have hdrop : pkt.drop 34 = body := rfl
  refine ⟨?_, rfl, rfl, hi.symm, ?_, ?_, ?_, ?_, hiplen, ?_⟩
  · exact @word_putWord 2048 (by decide)
  · have hbyte : byteAt pkt 14 = (0x45 : UInt8).toNat := rfl
    rw [hbyte]
    decide
  · have hbyte : byteAt pkt 20 = 0 := rfl
    have hbyte' : byteAt pkt 21 = 0 := rfl
    unfold ipOffset
    rw [hbyte, hbyte']
    rfl
  · have hbyte : byteAt pkt 20 = 0 := rfl
    unfold ipMore
    rw [hbyte]
    rfl
  · have hbyte : byteAt pkt 23 = (UInt8.ofNat proto).toNat := rfl
    unfold ipProtocol
    rw [hbyte, UInt8.toNat_ofNat', Nat.mod_eq_of_lt hproto]
  unfold ipBody
  rw [hhdr, hiplen, copyOut_eq (by omega), hdrop, List.take_length]

theorem Encloses.receive {heap : Heap} {net : NetDev τ} {body pkt : List UInt8} {proto : ℕ}
    (h : Encloses s net.mac net.ipv4 proto body pkt) (hnew : heap.ok net.calls = true)
    (hdata : heap.ok net.next.calls = true) : receiveIpv4 heap pkt net =
      (some { ipPktNew s.ipv4 net.ipv4 proto (ipIdent pkt) with data := body, len := body.length },
        net.next.next) := by
  have hfrag : ¬ (ipOffset pkt > 0 ∨ ipMore pkt = true) := by
    rw [h.offset, h.more]
    decide
  unfold receiveIpv4
  rw [if_neg (not_not.mpr h.mac), if_neg (not_not.mpr h.dst), if_neg (not_not.mpr h.version), if_neg hfrag,
    if_neg (by rw [hnew]; decide), if_neg (by rw [hdata]; decide), h.src, h.dst, h.protocol, h.body, h.len]

theorem sendUdpPkt_reads (hs : s.Proper) (hmac : macRem.length = 6) (haddr : addrRem.length = 4)
    (hdata : data.length ≤ 65507) : Reads s macRem addrRem
      (putWord s.portLoc ++ putWord portRem ++ putWord (8 + data.length) ++ [0, 0] ++ data)
      (sendUdpPkt s macRem addrRem portRem data) := by
  have hlen : (putWord s.portLoc ++ putWord portRem ++ putWord (8 + data.length) ++ [0, 0] ++ data).length =
      8 + data.length := by
    simp [putWord]
    omega
  have h := createIpv4Pkt_encloses hs hmac haddr (by decide : ipUdp < 256) hlen (by omega)
  exact ⟨h.type, h.mac, h.dst, h.src, h.version, h.offset, h.more, h.protocol, h.len, h.body⟩

theorem Reads.encloses {body pkt : List UInt8} (h : Reads s macRem addrRem body pkt) :
    Encloses s macRem addrRem ipUdp body pkt :=
  ⟨h.type, h.mac, h.dst, h.src, h.version, h.offset, h.more, h.protocol, h.len, h.body⟩

theorem sendUdpPkt_body (hs : s.Proper) (hport : portRem < 2 ^ 16) (hdata : data.length ≤ 65507) :
    word (putWord s.portLoc ++ putWord portRem ++ putWord (8 + data.length) ++ [0, 0] ++ data) 0 = s.portLoc ∧
    word (putWord s.portLoc ++ putWord portRem ++ putWord (8 + data.length) ++ [0, 0] ++ data) 2 = portRem ∧
    word (putWord s.portLoc ++ putWord portRem ++ putWord (8 + data.length) ++ [0, 0] ++ data) 4 =
      8 + data.length :=
  ⟨word_putWord hs.port, word_putWord hport, word_putWord (by omega)⟩

end Frames

structure Datagram where
  sender : Host
  payload : List UInt8

def Datagram.body (port : ℕ) (d : Datagram) : List UInt8 :=
  putWord d.sender.portLoc ++ putWord port ++ putWord (8 + d.payload.length) ++ [0, 0] ++ d.payload

def Datagram.pkt (dst : List UInt8) (port : ℕ) (d : Datagram) : IpPkt :=
  { srcIpv4 := d.sender.ipv4, dstIpv4 := dst, protocol := ipUdp, id := word (putWord d.sender.ident) 0
    srcPort := d.sender.portLoc, haveLast := false, frags := [], data := d.body port
    len := 8 + d.payload.length }

section Receiving

variable {heap : Heap} {hs : Handlers τ} {net : NetDev τ} {d : Datagram} {port i len : ℕ} {b : Binding τ}

theorem Datagram.body_length : (d.body port).length = 8 + d.payload.length := by
  unfold Datagram.body
  simp [putWord]
  omega

theorem netProcessPkt_datagram (halloc : ∀ n, heap.ok n = true) (hd : d.sender.Proper)
    (hlen : d.payload.length ≤ 65507) (hmac : net.mac.length = 6) (hip : net.ipv4.length = 4)
    (hport : port < 2 ^ 16) (hbound : findBindingIp protoUdp port net.bindings = some i) :
    netProcessPkt heap hs (sendUdpPkt d.sender net.mac net.ipv4 port d.payload) net =
      { net.next.next with bindings := net.bindings.modify i fun b =>
          { b with recvWait := b.recvWait ++ [d.pkt net.ipv4 port] } } := by
  have hr := @sendUdpPkt_reads d.sender net.mac net.ipv4 d.payload port hd hmac hip hlen
  have hident : ipIdent (sendUdpPkt d.sender net.mac net.ipv4 port d.payload) =
      word (putWord d.sender.ident) 0 := by
    obtain ⟨m0, m1, m2, m3, m4, m5, hm⟩ := eq_six hd.mac
    obtain ⟨r0, r1, r2, r3, r4, r5, hr⟩ := eq_six hmac
    unfold sendUdpPkt createIpv4Pkt
    rw [hm, hr]
    rfl
  obtain ⟨hw0, hw2, hw4⟩ := sendUdpPkt_body hd hport hlen
  have hbody : putWord d.sender.portLoc ++ putWord port ++ putWord (8 + d.payload.length) ++ [0, 0] ++ d.payload =
      d.body port := rfl
  rw [hbody] at hr hw0 hw2 hw4
  generalize sendUdpPkt d.sender net.mac net.ipv4 port d.payload = pkt at hr hident ⊢
  have hreceive : receiveIpv4 heap pkt net = (some { d.pkt net.ipv4 port with srcPort := 0 }, net.next.next) := by
    rw [hr.encloses.receive (halloc _) (halloc _), hident, Datagram.body_length]
    rfl
  unfold netProcessPkt handleIpv4
  rw [if_neg (by rw [hr.type]; decide), if_pos hr.type, hreceive]
  have hproto : (d.pkt net.ipv4 port).protocol = ipUdp := rfl
  dsimp only
  unfold handOver
  dsimp only
  rw [hproto, if_neg (by decide), if_neg (by decide), if_pos rfl]
  unfold handleUdp
  have hdata : (d.pkt net.ipv4 port).data = d.body port := rfl
  have hl : (d.pkt net.ipv4 port).len = 8 + d.payload.length := rfl
  have hbindings : net.next.next.bindings = net.bindings := rfl
  dsimp only
  rw [hdata, hw4, hl, if_neg (lt_irrefl _), hw2, hbindings, hbound, hw0]
  rfl

structure Queued (dst : List UInt8) (port : ℕ) (b : Binding τ) (ds : List Datagram) (o : ℕ) : Prop where
  recvWait : b.recvWait = ds.map (Datagram.pkt dst port)
  offset : b.offsetIntoWaiting = o
  within : ∀ d, ds.head? = some d → o = 0 ∨ o < d.payload.length
  empty : ds = [] → o = 0
  lengths : ∀ d ∈ ds, d.payload.length ≤ 65507

theorem Queued.length {dst : List UInt8} {ds : List Datagram} {o : ℕ} (h : Queued dst port b ds o) :
    b.recvWait.length = ds.length := by
  rw [h.recvWait, List.length_map]

theorem Queued.push {dst : List UInt8} {ds : List Datagram} {o : ℕ} (h : Queued dst port b ds o)
    (hlen : d.payload.length ≤ 65507) :
    Queued dst port { b with recvWait := b.recvWait ++ [d.pkt dst port] } (ds ++ [d]) o := by
  refine ⟨?_, h.offset, ?_, ?_, ?_⟩
  · dsimp only
    rw [h.recvWait, List.map_append]
    rfl
  · intro x hx
    cases ds with
    | nil => exact .inl (h.empty rfl)
    | cons y rest => exact h.within x hx
  · intro he
    simp at he
  · intro x hx
    rcases List.mem_append.mp hx with hold | hnew
    · exact h.lengths x hold
    · rw [List.mem_singleton.mp hnew]
      exact hlen

theorem Queued.read {dst : List UInt8} {ds : List Datagram} {o : ℕ} (h : Queued dst port b (d :: ds) o) :
    (ipReadUdp len b).1 = { data := (d.payload.drop o).take len, portRem := d.sender.portLoc
                            addrRem := d.sender.ipv4 } ∧
    (o + len < d.payload.length ∧ Queued dst port (ipReadUdp len b).2 (d :: ds) (o + len) ∨
      d.payload.length ≤ o + len ∧ Queued dst port (ipReadUdp len b).2 ds 0) := by
  have hlen := h.lengths d List.mem_cons_self
  have hwithin := h.within d rfl
  have ho : o ≤ d.payload.length := by omega
  have hwait : b.recvWait = d.pkt dst port :: ds.map (Datagram.pkt dst port) := h.recvWait
  have hpl : lenSub (d.pkt dst port).len 8 = d.payload.length := by
    have hl : (d.pkt dst port).len = 8 + d.payload.length := rfl
    rw [hl]
    unfold lenSub
    omega
  have hrest : lenSub d.payload.length o = d.payload.length - o := by
    unfold lenSub
    omega
  have hcopy : ∀ l ≤ d.payload.length - o, copyOut (d.pkt dst port).data (8 + o) l = (d.payload.drop o).take l := by
    intro l hl
    have hbody : (d.pkt dst port).data = d.body port := rfl
    have hdrop : (d.body port).drop 8 = d.payload := rfl
    rw [hbody, copyOut_eq (by rw [Datagram.body_length]; omega), ← List.drop_drop, hdrop]
  unfold ipReadUdp
  rw [hwait, h.offset]
  dsimp only
  rw [hpl, hrest]
  by_cases hcut : len > d.payload.length - o
  · rw [if_pos hcut, hcopy _ (le_refl _)]
    have htake : (d.payload.drop o).take (d.payload.length - o) = (d.payload.drop o).take len := by
      rw [List.take_of_length_le (by rw [List.length_drop]), List.take_of_length_le (by rw [List.length_drop]; omega)]
    have hdone : ¬ (o + (d.payload.length - o)) % 2 ^ 32 < d.payload.length := by omega
    rw [htake, if_neg hdone]
    refine ⟨rfl, .inr ⟨by omega, rfl, rfl, fun _ _ => .inl rfl, fun _ => rfl, ?_⟩⟩
    exact fun x hx => h.lengths x (List.mem_cons_of_mem _ hx)
  · rw [if_neg hcut, hcopy _ (by omega)]
    by_cases hmore : (o + len) % 2 ^ 32 < d.payload.length
    · rw [if_pos hmore]
      refine ⟨rfl, .inl ⟨by omega, rfl, rfl, ?_, fun he => (by cases he), h.lengths⟩⟩
      intro x hx
      cases hx
      exact .inr (by omega)
    · rw [if_neg hmore]
      refine ⟨rfl, .inr ⟨by omega, rfl, rfl, fun _ _ => .inl rfl, fun _ => rfl, ?_⟩⟩
      exact fun x hx => h.lengths x (List.mem_cons_of_mem _ hx)

end Receiving

/-- Runs of a host whose binding `i` is bound to `port`: datagrams that came in, and reads with how much
they asked for, in any order. -/
inductive UdpRun (heap : Heap) (hs : Handlers τ) (port i : ℕ) (net₀ : NetDev τ) :
    NetDev τ → List Datagram → List (ℕ × UdpRsp) → Prop
  | start : UdpRun heap hs port i net₀ net₀ [] []
  | arrive {net : NetDev τ} {ds : List Datagram} {rs : List (ℕ × UdpRsp)}
      (run : UdpRun heap hs port i net₀ net ds rs) (d : Datagram) (proper : d.sender.Proper)
      (length : d.payload.length ≤ 65507) :
      UdpRun heap hs port i net₀
        (netProcessPkt heap hs (sendUdpPkt d.sender net₀.mac net₀.ipv4 port d.payload) net) (ds ++ [d]) rs
  | read {net : NetDev τ} {ds : List Datagram} {rs : List (ℕ × UdpRsp)} {b : Binding τ}
      (run : UdpRun heap hs port i net₀ net ds rs) (len : ℕ) (bound : net.bindings[i]? = some b) :
      UdpRun heap hs port i net₀ { net with bindings := net.bindings.set i (ipReadUdp len b).2 } ds
        (rs ++ [(len, (ipReadUdp len b).1)])

def payloads (ds : List Datagram) : List UInt8 := (ds.map Datagram.payload).flatten

def returned (rs : List (ℕ × UdpRsp)) : List UInt8 := (rs.map fun r => r.2.data).flatten

/-- Read `r`, after `before` was returned and with `waiting` datagrams left, is from the first of these alone: it
starts where the reads before it left off, has as many bytes as it asked for or as are left, and leaves `waiting'`
datagrams, one less when it has the last byte. -/
def FromOne (ds : List Datagram) (before : List UInt8) (waiting waiting' : ℕ) (r : ℕ × UdpRsp) : Prop :=
  ∃ d o, ds[ds.length - waiting]? = some d ∧ (o < d.payload.length ∨ d.payload = [] ∧ o = 0) ∧
    before = payloads (ds.take (ds.length - waiting)) ++ d.payload.take o ∧
    r.2 = { data := (d.payload.drop o).take r.1, portRem := d.sender.portLoc, addrRem := d.sender.ipv4 } ∧
    waiting' + (if d.payload.length ≤ o + r.1 then 1 else 0) = waiting

structure Delivered (port i : ℕ) (net₀ net : NetDev τ) (ds : List Datagram) (rs : List (ℕ × UdpRsp)) (j o : ℕ) :
    Prop where
  mac : net.mac = net₀.mac
  ipv4 : net.ipv4 = net₀.ipv4
  bound : findBindingIp protoUdp port net.bindings = some i
  binding : ∃ b, net.bindings[i]? = some b ∧ Queued net₀.ipv4 port b (ds.drop j) o
  le : j ≤ ds.length
  done : returned rs = payloads (ds.take j) ++ (payloads (ds.drop j)).take o

def Binding.unread (b : Binding τ) : List UInt8 :=
  (b.recvWait.map fun p => p.data.drop 8).flatten.drop b.offsetIntoWaiting

section Runs

variable {heap : Heap} {hs : Handlers τ} {net net₀ : NetDev τ} {port i : ℕ} {ds : List Datagram} {d : Datagram}
  {rs : List (ℕ × UdpRsp)} {j o : ℕ}

theorem payloads_append {es : List Datagram} : payloads (ds ++ es) = payloads ds ++ payloads es := by
  unfold payloads
  rw [List.map_append, List.flatten_append]

theorem payloads_cons : payloads (d :: ds) = d.payload ++ payloads ds := rfl

theorem returned_append {r : ℕ × UdpRsp} : returned (rs ++ [r]) = returned rs ++ r.2.data := by
  unfold returned
  rw [List.map_append, List.flatten_append, List.map_singleton, List.flatten_singleton]

theorem findBindingIp_congr {l l' : List (Binding τ)} {proto : ℕ}
    (h : l'.map (fun b => (b.proto, b.portLoc)) = l.map fun b => (b.proto, b.portLoc)) :
    findBindingIp proto port l' = findBindingIp proto port l := by
  have hmap : ∀ l : List (Binding τ), findBindingIp proto port l =
      (l.map fun b => (b.proto, b.portLoc)).findIdx? fun x => decide (proto = x.1 ∧ port = x.2) := by
    intro l
    unfold findBindingIp
    rw [List.findIdx?_map]
    rfl
  rw [hmap, hmap, h]

theorem netProcessPkt_like (halloc : ∀ n, heap.ok n = true) (hd : d.sender.Proper) (hlen : d.payload.length ≤ 65507)
    (hmac : net₀.mac.length = 6) (hip : net₀.ipv4.length = 4) (hport : port < 2 ^ 16) (hsame : net.mac = net₀.mac)
    (hsame' : net.ipv4 = net₀.ipv4) (hbound : findBindingIp protoUdp port net.bindings = some i) :
    netProcessPkt heap hs (sendUdpPkt d.sender net₀.mac net₀.ipv4 port d.payload) net =
      { net.next.next with bindings := net.bindings.modify i fun b =>
          { b with recvWait := b.recvWait ++ [d.pkt net₀.ipv4 port] } } := by
  rw [← hsame] at hmac ⊢
  rw [← hsame'] at hip ⊢
  exact netProcessPkt_datagram halloc hd hlen hmac hip hport hbound

theorem UdpRun.arrived (run : UdpRun heap hs port i net₀ net ds rs) (halloc : ∀ n, heap.ok n = true)
    (hd : d.sender.Proper) (hlen : d.payload.length ≤ 65507) (hmac : net₀.mac.length = 6)
    (hip : net₀.ipv4.length = 4) (hport : port < 2 ^ 16) (hsame : net.mac = net₀.mac)
    (hsame' : net.ipv4 = net₀.ipv4) (hbound : findBindingIp protoUdp port net.bindings = some i) :
    UdpRun heap hs port i net₀ { net.next.next with bindings := net.bindings.modify i fun b =>
      { b with recvWait := b.recvWait ++ [d.pkt net₀.ipv4 port] } } (ds ++ [d]) rs := by
  rw [← netProcessPkt_like halloc hd hlen hmac hip hport hsame hsame' hbound]
  exact run.arrive d hd hlen

theorem Delivered.start {b : Binding τ} (hbound : findBindingIp protoUdp port net₀.bindings = some i)
    (hb : net₀.bindings[i]? = some b) (hwait : b.recvWait = []) (hoff : b.offsetIntoWaiting = 0) :
    Delivered port i net₀ net₀ [] [] 0 0 :=
  ⟨rfl, rfl, hbound, ⟨b, hb, hwait, hoff, fun _ he => (by cases he), fun _ => rfl, fun _ he => (by cases he)⟩,
    le_refl _, rfl⟩

theorem Delivered.arrive (h : Delivered port i net₀ net ds rs j o) (halloc : ∀ n, heap.ok n = true)
    (hd : d.sender.Proper) (hlen : d.payload.length ≤ 65507) (hmac : net₀.mac.length = 6)
    (hip : net₀.ipv4.length = 4) (hport : port < 2 ^ 16) :
    Delivered port i net₀
      (netProcessPkt heap hs (sendUdpPkt d.sender net₀.mac net₀.ipv4 port d.payload) net) (ds ++ [d]) rs j o := by
  obtain ⟨b, hb, hq⟩ := h.binding
  rw [netProcessPkt_like halloc hd hlen hmac hip hport h.mac h.ipv4 h.bound]
  refine ⟨h.mac, h.ipv4, ?_, ⟨{ b with recvWait := b.recvWait ++ [d.pkt net₀.ipv4 port] }, ?_, ?_⟩, ?_, ?_⟩
  · rw [← h.bound]
    apply findBindingIp_congr
    dsimp only
    apply List.ext_getElem?
    intro n
    rw [List.getElem?_map, List.getElem?_map, List.getElem?_modify]
    cases net.bindings[n]? with
    | none => rfl
    | some x =>
      simp only [Option.map_eq_map, Option.map_some]
      split_ifs <;> rfl
  · dsimp only
    rw [List.getElem?_modify, hb]
    simp only [Option.map_eq_map, Option.map_some, if_true]
  · rw [List.drop_append_of_le_length h.le]
    exact hq.push hlen
  · rw [List.length_append]
    exact Nat.le_add_right_of_le h.le
  · rw [List.take_append_of_le_length h.le, List.drop_append_of_le_length h.le, payloads_append, h.done]
    congr 1
    -- as many bytes as were returned are there already
    cases hds : ds.drop j with
    | nil =>
      rw [hds] at hq
      rw [hq.empty rfl]
      rfl
    | cons x rest =>
      rw [hds] at hq
      have hwithin := hq.within x rfl
      rw [payloads_cons, List.append_assoc, List.take_append_of_le_length (by omega),
        List.take_append_of_le_length (by omega)]

theorem Delivered.next {b : Binding τ} (h : Delivered port i net₀ net ds rs j o) (hb : net.bindings[i]? = some b)
    (len : ℕ) : (b.recvWait = [] ∧ (ipReadUdp len b).1.data = [] ∧ (ipReadUdp len b).2 = b) ∨
      FromOne ds (returned rs) b.recvWait.length (ipReadUdp len b).2.recvWait.length (len, (ipReadUdp len b).1) ∧
        ∃ j' o', Queued net₀.ipv4 port (ipReadUdp len b).2 (ds.drop j') o' ∧ j' ≤ ds.length ∧
          returned rs ++ (ipReadUdp len b).1.data = payloads (ds.take j') ++ (payloads (ds.drop j')).take o' := by
  obtain ⟨b', hb', hq⟩ := h.binding
  cases hb.symm.trans hb'
  have hret := h.done
  cases hds : ds.drop j with
  | nil =>
    rw [hds] at hq
    have hempty : b.recvWait = [] := hq.recvWait
    left
    refine ⟨hempty, ?_, ?_⟩
    · unfold ipReadUdp
      rw [hempty]
    · unfold ipReadUdp
      rw [hempty]
  | cons x rest =>
    right
    rw [hds] at hq hret
    have hjlt : j < ds.length := by
      by_contra hge
      rw [List.drop_of_length_le (by omega)] at hds
      cases hds
    have hsplit := List.drop_eq_getElem_cons hjlt
    rw [hds] at hsplit
    injection hsplit with hx hrest
    have hwithin := hq.within x rfl
    rw [payloads_cons, List.take_append_of_le_length (by omega)] at hret
    obtain ⟨hrsp, hcase⟩ := @Queued.read τ x port len b net₀.ipv4 rest o hq
    have hrests : rest.length + 1 + j = ds.length := by
      have hlength := congrArg List.length hds
      rw [List.length_drop, List.length_cons] at hlength
      omega
    have hplace : ds.length - b.recvWait.length = j := by
      rw [hq.length, List.length_cons]
      omega
    have hinside : o < x.payload.length ∨ x.payload = [] ∧ o = 0 := by
      rcases x.payload.length.eq_zero_or_pos with hz | hpos
      · exact .inr ⟨List.length_eq_zero_iff.mp hz, by omega⟩
      · exact .inl (by omega)
    refine ⟨⟨x, o, ?_, hinside, ?_, hrsp, ?_⟩, ?_⟩
    · rw [hplace, List.getElem?_eq_getElem hjlt, hx]
    · rw [hplace, hret]
    · rw [hq.length]
      rcases hcase with ⟨hlt, hq'⟩ | ⟨hge, hq'⟩
      · rw [if_neg (Nat.not_le.mpr hlt), hq'.length, List.length_cons]
      · rw [if_pos hge, hq'.length, List.length_cons]
    · rw [hrsp, hret, List.append_assoc]
      dsimp only
      rcases hcase with ⟨hlt, hq'⟩ | ⟨hge, hq'⟩
      · refine ⟨j, o + len, ?_, h.le, ?_⟩
        · rw [hds]
          exact hq'
        · rw [hds, payloads_cons, List.take_append_of_le_length (by omega), List.take_add]
      · refine ⟨j + 1, 0, ?_, hjlt, ?_⟩
        · rw [← hrest]
          exact hq'
        · have htake : (x.payload.drop o).take len = x.payload.drop o :=
            List.take_of_length_le (by rw [List.length_drop]; omega)
          rw [htake, List.take_append_drop, List.take_succ_eq_append_getElem hjlt, payloads_append, ← hx, List.take_zero, List.append_nil,
            payloads_cons]
          unfold payloads
          rw [List.map_nil, List.flatten_nil, List.append_nil]

theorem ipReadUdp_place {b : Binding τ} {len : ℕ} :
    ((ipReadUdp len b).2.proto, (ipReadUdp len b).2.portLoc) = (b.proto, b.portLoc) := by
  unfold ipReadUdp
  split
  · rfl
  · dsimp only
    split_ifs <;> rfl

theorem Delivered.read {b : Binding τ} {len : ℕ} (h : Delivered port i net₀ net ds rs j o)
    (hb : net.bindings[i]? = some b) : ∃ j' o',
      Delivered port i net₀ { net with bindings := net.bindings.set i (ipReadUdp len b).2 } ds
        (rs ++ [(len, (ipReadUdp len b).1)]) j' o' := by
  have hbound : findBindingIp protoUdp port (net.bindings.set i (ipReadUdp len b).2) = some i := by
    rw [← h.bound]
    apply findBindingIp_congr
    apply List.ext_getElem?
    intro n
    rw [List.getElem?_map, List.getElem?_map, List.getElem?_set]
    split_ifs with hn hlt
    · subst hn
      rw [hb]
      exact congrArg some ipReadUdp_place
    · subst hn
      rw [List.getElem?_eq_none (by omega)]
    · rfl
  have hilt : i < net.bindings.length := (List.getElem?_eq_some_iff.mp hb).1
  have hset : (net.bindings.set i (ipReadUdp len b).2)[i]? = some (ipReadUdp len b).2 := by
    rw [List.getElem?_set, if_pos rfl, if_pos hilt]
  rcases h.next hb len with ⟨-, hdata, hsame⟩ | ⟨-, j', o', hq', hle, hret⟩
  · obtain ⟨b', hb', hq⟩ := h.binding
    cases hb.symm.trans hb'
    refine ⟨j, o, h.mac, h.ipv4, hbound, ⟨_, hset, ?_⟩, h.le, ?_⟩
    · rw [hsame]
      exact hq
    · rw [returned_append, hdata, List.append_nil]
      exact h.done
  · refine ⟨j', o', h.mac, h.ipv4, hbound, ⟨_, hset, hq'⟩, hle, ?_⟩
    rw [returned_append]
    exact hret

theorem Queued.unread {dst : List UInt8} {b : Binding τ} (h : Queued dst port b ds o) :
    b.unread = (payloads ds).drop o := by
  unfold Binding.unread payloads
  rw [h.recvWait, h.offset, List.map_map]
  rfl

/-- For datagrams of any hosts to a bound port, in any order with reads of any length: what the reads
return and what is still waiting are the payloads in the order they came, and the next read returns
bytes of one datagram only, from where the reads before left off, with its sender's address and port,
and is done with it when it has the last byte (or nothing is waiting). -/
theorem udp_end_to_end {b₀ : Binding τ} (halloc : ∀ n, heap.ok n = true) (hmac : net₀.mac.length = 6)
    (hip : net₀.ipv4.length = 4) (hport : port < 2 ^ 16)
    (hbound : findBindingIp protoUdp port net₀.bindings = some i) (hb₀ : net₀.bindings[i]? = some b₀)
    (hwait : b₀.recvWait = []) (hoff : b₀.offsetIntoWaiting = 0) (run : UdpRun heap hs port i net₀ net ds rs) :
    ∃ b, net.bindings[i]? = some b ∧ returned rs ++ b.unread = payloads ds ∧
      ∀ len, b.recvWait = [] ∧ (ipReadUdp len b).1.data = [] ∨
        FromOne ds (returned rs) b.recvWait.length (ipReadUdp len b).2.recvWait.length
          (len, (ipReadUdp len b).1) := by
  have hdelivered : ∃ j o, Delivered port i net₀ net ds rs j o := by
    induction run with
    | start => exact ⟨0, 0, .start hbound hb₀ hwait hoff⟩
    | arrive _ d proper length ih =>
      obtain ⟨j, o, h⟩ := ih
      exact ⟨j, o, h.arrive halloc proper length hmac hip hport⟩
    | read _ len bound ih =>
      obtain ⟨j, o, h⟩ := ih
      exact h.read bound
  obtain ⟨j, o, h⟩ := hdelivered
  obtain ⟨b, hb, hq⟩ := h.binding
  refine ⟨b, hb, ?_, ?_⟩
  · rw [hq.unread, h.done, List.append_assoc, List.take_append_drop, ← payloads_append, List.take_append_drop]
  · intro len
    rcases h.next hb len with ⟨hempty, hdata, -⟩ | ⟨hone, -⟩
    · exact .inl ⟨hempty, hdata⟩
    · exact .inr hone

def oneHost : Host :=
  { mac := [2, 0, 0, 0, 0, 1], ipv4 := [192, 168, 10, 1], ident := 0, portLoc := 4000, junk := 0 }

def boundNet : NetDev Unit :=
  { mac := [82, 84, 0, 18, 52, 86], ipv4 := [192, 168, 10, 34], pkts := [], calls := 0
    bindings := [{ procId := 2, id := 321, proto := protoUdp, portLoc := 80, tcp := (), offsetIntoWaiting := 0
                   recvWait := [] }] }

def idleHandlers : Handlers Unit := ⟨fun _ net => net, fun _ net => net, fun _ net => net⟩

def otherHost : Host := { oneHost with ipv4 := [192, 168, 10, 7], portLoc := 4001 }

theorem udp_end_to_end_two : ∃ net rs b,
    UdpRun ⟨fun _ => true, fun _ => []⟩ idleHandlers 80 0 boundNet net
      [⟨oneHost, [1, 2, 3]⟩, ⟨otherHost, []⟩] rs ∧ net.bindings[0]? = some b ∧
      rs.map (fun r => r.2.data) = [[1, 2], [3]] ∧ returned rs ++ b.unread = [1, 2, 3] ∧
      FromOne [⟨oneHost, [1, 2, 3]⟩, ⟨otherHost, []⟩] [1, 2, 3] 1 0 (10, (ipReadUdp 10 b).1) := by
  have hstart : UdpRun ⟨fun _ => true, fun _ => []⟩ idleHandlers 80 0 boundNet boundNet [] [] := .start
  have hone := (hstart.arrived (d := ⟨oneHost, [1, 2, 3]⟩) (fun _ => rfl) ⟨rfl, rfl, by decide⟩ (by decide) rfl rfl
    (by decide) rfl rfl rfl).read 2 rfl
  have htwo := (hone.arrived (d := ⟨otherHost, []⟩) (fun _ => rfl) ⟨rfl, rfl, by decide⟩ (by decide) rfl rfl
    (by decide) rfl rfl rfl).read 10 rfl
  obtain ⟨b, hb, hunread, hnext⟩ := udp_end_to_end (fun _ => rfl) rfl rfl (by decide) rfl rfl rfl rfl htwo
  obtain rfl := Option.some.inj hb
  obtain ⟨hempty, -⟩ | hfrom := hnext 10
  · cases hempty
  · exact ⟨_, _, _, htwo, rfl, rfl, hunread, hfrom⟩

end Runs

end Agatha.Net
