import Mathlib.Algebra.Group.Nat.Defs
import Mathlib.Data.List.GetD
import Mathlib.Data.List.Infix

/-!
Frames that come in and the IP packets in them, from `lib/net/net.c` and `lib/net/ip.c`. A frame is
the list of its bytes, and bytes beyond its end read as zero. Lengths are 32 bits wide. `τ` is what a
binding keeps for TCP.
-/

namespace Agatha.Net

def protoUdp : ℕ := 0
def protoTcp : ℕ := 1
def ipIcmp : ℕ := 0x01
def ipTcp : ℕ := 0x06
def ipUdp : ℕ := 0x11

def byteAt (b : List UInt8) (i : ℕ) : ℕ := (b.getD i 0).toNat

def word (b : List UInt8) (i : ℕ) : ℕ := byteAt b i * 256 + byteAt b (i + 1)

def putWord (x : ℕ) : List UInt8 := [UInt8.ofNat (x / 256), UInt8.ofNat x]

def copyOut (b : List UInt8) (o n : ℕ) : List UInt8 := (List.range n).map fun i => b.getD (o + i) 0

def lenSub (a b : ℕ) : ℕ := (a + 2 ^ 32 - b) % 2 ^ 32

structure IpPktFrag where
  offset : ℕ
  len : ℕ
  data : List UInt8

structure IpPkt where
  srcIpv4 : List UInt8
  dstIpv4 : List UInt8
  protocol : ℕ
  id : ℕ
  srcPort : ℕ
  haveLast : Bool
  frags : List IpPktFrag
  data : List UInt8
  len : ℕ

structure Binding (τ : Type) where
  procId : ℤ
  id : ℤ
  proto : ℕ
  portLoc : ℕ
  tcp : τ
  offsetIntoWaiting : ℕ
  recvWait : List IpPkt

structure NetDev (τ : Type) where
  mac : List UInt8
  ipv4 : List UInt8
  bindings : List (Binding τ)
  pkts : List IpPkt
  calls : ℕ

structure Heap where
  ok : ℕ → Bool
  junk : ℕ → List UInt8

structure Handlers (τ : Type) where
  arp : List UInt8 → NetDev τ → NetDev τ
  icmp : IpPkt → NetDev τ → NetDev τ
  tcp : IpPkt → NetDev τ → NetDev τ

variable {τ : Type}

def NetDev.next (net : NetDev τ) : NetDev τ := { net with calls := net.calls + 1 }

def ipPktNew (src dst : List UInt8) (proto ident : ℕ) : IpPkt :=
  { srcIpv4 := src, dstIpv4 := dst, protocol := proto, id := ident, srcPort := 0, haveLast := false
    frags := [], data := [], len := 0 }

def IpPkt.waitsFor (src : List UInt8) (proto ident : ℕ) (p : IpPkt) : Bool :=
  decide (p.srcIpv4 = src ∧ p.id = ident ∧ p.protocol = proto)

def getWaitingIpPkt (heap : Heap) (src dst : List UInt8) (proto ident : ℕ) (net : NetDev τ) :
    Option ℕ × NetDev τ :=
  match net.pkts.findIdx? (IpPkt.waitsFor src proto ident) with
  | some i => (some i, net)
  | none =>
    if heap.ok net.calls then
      (some 0, { net.next with pkts := ipPktNew src dst proto ident :: net.pkts })
    else (none, net.next)

def insertFrag (f : IpPktFrag) : List IpPktFrag → List IpPktFrag
  | [] => [f]
  | o :: next => if f.offset < o.offset then f :: o :: next else o :: insertFrag f next

def hasGap : List IpPktFrag → Bool
  | a :: b :: next => decide ((a.offset + a.len) % 2 ^ 32 < b.offset) || hasGap (b :: next)
  | _ => false

def insertPktFrag (heap : Heap) (n : ℕ) (p : IpPkt) (f : IpPktFrag) (haveLast : Bool) : Bool × IpPkt :=
  let p := { p with
    frags := insertFrag f p.frags, haveLast := haveLast || p.haveLast
    len := if p.len < (f.offset + f.len) % 2 ^ 32 then (f.offset + f.len) % 2 ^ 32 else p.len }
  if p.haveLast = false then (false, p)
  else if hasGap p.frags then (false, p)
  else if heap.ok n then (true, { p with data := heap.junk n })
  else (false, { p with data := [] })

def ipHdrLen (pkt : List UInt8) : ℕ := byteAt pkt 14 % 16 * 4
def ipLen (pkt : List UInt8) : ℕ := lenSub (word pkt 16) (ipHdrLen pkt)
def ipIdent (pkt : List UInt8) : ℕ := word pkt 18
def ipMore (pkt : List UInt8) : Bool := decide (byteAt pkt 20 / 32 % 2 = 1)
def ipOffset (pkt : List UInt8) : ℕ := byteAt pkt 20 % 32 * 32 ||| byteAt pkt 21
def ipProtocol (pkt : List UInt8) : ℕ := byteAt pkt 23
def ipSrc (pkt : List UInt8) : List UInt8 := copyOut pkt 26 4
def ipDst (pkt : List UInt8) : List UInt8 := copyOut pkt 30 4
def ipBody (pkt : List UInt8) : List UInt8 := copyOut pkt (14 + ipHdrLen pkt) (ipLen pkt)

/-- `handle_ipv4` up to where it has a packet for the handler of its protocol. -/
def receiveIpv4 (heap : Heap) (pkt : List UInt8) (net : NetDev τ) : Option IpPkt × NetDev τ :=
  if copyOut pkt 0 6 ≠ net.mac then (none, net)
  else if ipDst pkt ≠ net.ipv4 then (none, net)
  else if byteAt pkt 14 / 16 ≠ 4 then (none, net)
  else if ipOffset pkt > 0 ∨ ipMore pkt = true then
    -- both of the fragment and of its data
    if heap.ok net.calls = false then (none, net.next)
    else if heap.ok net.next.calls = false then (none, net.next.next)
    else
      let f : IpPktFrag := { offset := ipOffset pkt, len := ipLen pkt, data := ipBody pkt }
      match getWaitingIpPkt heap (ipSrc pkt) (ipDst pkt) (ipProtocol pkt) (ipIdent pkt) net.next.next with
      | (none, net) => (none, net)
      | (some i, net) =>
        match net.pkts[i]? with
        | none => (none, net)
        | some p =>
          let (complete, p) := insertPktFrag heap net.calls p f (!ipMore pkt)
          let net := { net.next with pkts := net.pkts.set i p }
          if complete then (some p, net) else (none, net)
  else if heap.ok net.calls = false then (none, net.next)
  else if heap.ok net.next.calls = false then (none, net.next.next)
  else
    (some { ipPktNew (ipSrc pkt) (ipDst pkt) (ipProtocol pkt) (ipIdent pkt) with
      data := ipBody pkt, len := ipLen pkt }, net.next.next)

def findBindingIp (proto portLoc : ℕ) (l : List (Binding τ)) : Option ℕ :=
  l.findIdx? fun b => decide (proto = b.proto ∧ portLoc = b.portLoc)

def handleUdp (p : IpPkt) (net : NetDev τ) : NetDev τ :=
  if word p.data 4 > p.len then net
  else
    match findBindingIp protoUdp (word p.data 2) net.bindings with
    | none => net
    | some i => { net with bindings := net.bindings.modify i fun b =>
        { b with recvWait := b.recvWait ++ [{ p with srcPort := word p.data 0 }] } }

def handOver (hs : Handlers τ) (p : IpPkt) (net : NetDev τ) : NetDev τ :=
  if p.protocol = ipIcmp then hs.icmp p net
  else if p.protocol = ipTcp then hs.tcp p net
  else if p.protocol = ipUdp then handleUdp p net
  else net

def handleIpv4 (heap : Heap) (hs : Handlers τ) (pkt : List UInt8) (net : NetDev τ) : NetDev τ :=
  match receiveIpv4 heap pkt net with
  | (none, net) => net
  | (some p, net) => handOver hs p net

def netProcessPkt (heap : Heap) (hs : Handlers τ) (pkt : List UInt8) (net : NetDev τ) : NetDev τ :=
  if word pkt 12 = 0x0806 then hs.arp pkt net
  else if word pkt 12 = 0x0800 then handleIpv4 heap hs pkt net
  else net

section Bytes

variable {b c : List UInt8} {i n o : ℕ}

theorem copyOut_eq (h : o + n ≤ b.length) : copyOut b o n = (b.drop o).take n := by
  unfold copyOut
  apply List.ext_getElem
  · simp
    omega
  · intro j hj _
    have hn : j < n := by simpa using hj
    simp only [List.getElem_map, List.getElem_range, List.getElem_take, List.getElem_drop]
    rw [List.getD_eq_getElem _ _ (by omega)]

end Bytes

end Agatha.Net
