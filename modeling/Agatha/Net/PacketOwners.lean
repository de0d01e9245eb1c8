import Agatha.Net.AcceptSlot
import Mathlib.Algebra.GroupWithZero.Nat

namespace Agatha.Net

structure Owned where
  pkt : IpPkt
  self : ℕ
  data : Option ℕ
  frags : List (ℕ × ℕ)

def Owned.blocks (o : Owned) : List ℕ := o.self :: (o.data.toList ++ o.frags.flatMap fun f => [f.1, f.2])

/-- The blocks that `handle_ipv4` got for packets and their payloads, which of them were freed, and the packets
that are kept; a block is called by the number of the allocation that made it. -/
structure Ledger where
  made : List ℕ
  freed : List ℕ
  waiting : List Owned
  queued : List (List Owned)

def blockCount (x : ℕ) (os : List Owned) : ℕ := (os.map fun o => o.blocks.count x).sum

def Ledger.tally (L : Ledger) (x : ℕ) : ℕ :=
  L.freed.count x + blockCount x L.waiting + (L.queued.map (blockCount x)).sum

def Ledger.OwnedOnce (L : Ledger) : Prop := L.made.Nodup ∧ ∀ x, L.tally x = L.made.count x

def Ledger.make (xs : List ℕ) (L : Ledger) : Ledger := { L with made := L.made ++ xs }

def Ledger.free (xs : List ℕ) (L : Ledger) : Ledger := { L with freed := L.freed ++ xs }

def isFragment (pkt : List UInt8) : Bool := decide (ipOffset pkt > 0 ∨ ipMore pkt = true)

def fragOf (pkt : List UInt8) : IpPktFrag := { offset := ipOffset pkt, len := ipLen pkt, data := ipBody pkt }

def IpPkt.completes (f : IpPktFrag) (last : Bool) (p : IpPkt) : Bool :=
  (last || p.haveLast) && !hasGap (insertFrag f p.frags)

def Owned.insertFrag (heap : Heap) (n : ℕ) (f : IpPktFrag) (blocks : ℕ × ℕ) (last : Bool) (o : Owned) : Owned :=
  { pkt := (insertPktFrag heap n o.pkt f last).2, self := o.self, frags := blocks :: o.frags
    data := if o.pkt.completes f last then if heap.ok n then some n else none else o.data }

def Ledger.insertAt (heap : Heap) (n i : ℕ) (f : IpPktFrag) (blocks : ℕ × ℕ) (last : Bool) (L : Ledger) :
    Option Owned × Ledger :=
  match L.waiting[i]? with
  | none => (none, L)
  | some o =>
    let now := o.insertFrag heap n f blocks last
    let L := { L with waiting := L.waiting.set i now }
    if o.pkt.completes f last && heap.ok n then (some now, L.make [n]) else (none, L)

def Owned.waitsFor (pkt : List UInt8) (o : Owned) : Bool := o.pkt.waitsFor (ipSrc pkt) (ipProtocol pkt) (ipIdent pkt)

def Ledger.receiveFrag (heap : Heap) (pkt : List UInt8) (n : ℕ) (L : Ledger) : Option Owned × Ledger :=
  match L.waiting.findIdx? (Owned.waitsFor pkt) with
  | some i => L.insertAt heap (n + 2) i (fragOf pkt) (n, n + 1) (!ipMore pkt)
  | none =>
    if heap.ok (n + 2) then
      let new : Owned := { pkt := ipPktNew (ipSrc pkt) (ipDst pkt) (ipProtocol pkt) (ipIdent pkt)
                           self := n + 2, data := none, frags := [] }
      { L.make [n + 2] with waiting := new :: L.waiting }.insertAt heap (n + 3) 0 (fragOf pkt) (n, n + 1)
        (!ipMore pkt)
    else (none, L.free [n + 1, n])

/-- `handle_ipv4` up to where it has a packet for the handler of its protocol. -/
def Ledger.receive (heap : Heap) (pkt : List UInt8) (net : NetDev TcpBinding) (L : Ledger) : Option Owned × Ledger :=
  if copyOut pkt 0 6 ≠ net.mac then (none, L)
  else if ipDst pkt ≠ net.ipv4 then (none, L)
  else if byteAt pkt 14 / 16 ≠ 4 then (none, L)
  else if ipOffset pkt > 0 ∨ ipMore pkt = true then
    if heap.ok net.calls = false then (none, L)
    else if heap.ok net.next.calls = false then (none, (L.make [net.calls]).free [net.calls])
    else (L.make [net.calls, net.calls + 1]).receiveFrag heap pkt net.calls
  else if heap.ok net.calls = false then (none, L)
  else if heap.ok net.next.calls = false then (none, (L.make [net.calls]).free [net.calls])
  else
    (some { pkt := { ipPktNew (ipSrc pkt) (ipDst pkt) (ipProtocol pkt) (ipIdent pkt) with
                     data := ipBody pkt, len := ipLen pkt }
            self := net.calls, data := some (net.calls + 1), frags := [] }, L.make [net.calls, net.calls + 1])

def tcpCon (p : IpPkt) (t : TcpBinding) : Option Con :=
  match t.cons.find? (Con.isFrom p) with
  | some c => some c
  | none => t.listenCon.filter fun c => decide (c.state = .listen) || c.isFrom p

def synUnknown (p : IpPkt) (s : Server) : Bool :=
  match findBindingIp protoTcp (word p.data 2) s.net.bindings with
  | none => false
  | some i =>
    match s.net.bindings[i]?.bind fun b => tcpCon p b.tcp with
    | none => false
    | some c =>
      !hasFlag (tcpFlags p) tcpFlagRst && !hasFlag (tcpFlags p) tcpFlagFin && hasFlag (tcpFlags p) tcpFlagSyn &&
        decide (c.state = .listen) && (s.arpMatchIp p.srcIpv4).isNone

def Ledger.freePkt (o : Owned) (L : Ledger) : Ledger := L.free o.blocks

/-- What the handlers do with a packet: `handle_tcp` frees it also when `handle_tcp_syn` has, and `handle_udp`
and the default case drop some. -/
def Ledger.handOver (o : Owned) (s : Server) (L : Ledger) : Ledger :=
  if o.pkt.protocol = ipIcmp then L.freePkt o
  else if o.pkt.protocol = ipTcp then if synUnknown o.pkt s then (L.freePkt o).freePkt o else L.freePkt o
  else if o.pkt.protocol = ipUdp then
    if word o.pkt.data 4 > o.pkt.len then L
    else
      match findBindingIp protoUdp (word o.pkt.data 2) s.net.bindings with
      | none => L.freePkt o
      | some i => { L with queued := L.queued.modify i fun q =>
          q ++ [{ o with pkt := { o.pkt with srcPort := word o.pkt.data 0 } }] }
  else L

def Ledger.step (heap : Heap) (pkt : List UInt8) (s : Server) (L : Ledger) : Ledger :=
  if word pkt 12 = 0x0800 then
    match L.receive heap pkt s.net with
    | (none, L) => L
    | (some o, L) => L.handOver o { s with net := (receiveIpv4 heap pkt s.net).2 }
  else L

def OneOwner (pkt : List UInt8) (p : IpPkt) (s : Server) : Prop :=
  if isFragment pkt then
    p.protocol ≠ ipIcmp ∧ p.protocol ≠ ipTcp ∧ (p.protocol = ipUdp → word p.data 4 > p.len)
  else
    p.protocol = ipIcmp ∨ (p.protocol = ipTcp ∧ synUnknown p s = false) ∨
      (p.protocol = ipUdp ∧ word p.data 4 ≤ p.len)

def Repeats (heap : Heap) (pkt : List UInt8) (net : NetDev TcpBinding) (L : Ledger) : Prop :=
  (copyOut pkt 0 6 = net.mac ∧ ipDst pkt = net.ipv4 ∧ byteAt pkt 14 / 16 = 4 ∧ isFragment pkt = true ∧
      heap.ok net.calls = true ∧ heap.ok net.next.calls = true) ∧
    ∃ o, L.waiting.find? (Owned.waitsFor pkt) = some o ∧ o.pkt.completes (fragOf pkt) (!ipMore pkt) = true ∧
      o.data ≠ none

def FrameOwned (heap : Heap) (pkt : List UInt8) (s : Server) (L : Ledger) : Prop :=
  word pkt 12 = 0x0800 → ¬ Repeats heap pkt s.net L ∧
    ∀ p net, receiveIpv4 heap pkt s.net = (some p, net) → OneOwner pkt p { s with net := net }

structure Ledger.Mirrors (L : Ledger) (s : Server) : Prop where
  waiting : L.waiting.map Owned.pkt = s.net.pkts
  queued : L.queued.map (List.map Owned.pkt) = s.net.bindings.map Binding.recvWait
  made : ∀ x ∈ L.made, x < s.net.calls

/-- Frames that come in, from any state, in which each one meets `cond`. -/
inductive PacketRun (cond : Heap → List UInt8 → Server → Ledger → Prop) : Server → Ledger → Prop
  | start {s : Server} {L : Ledger} (mirrors : L.Mirrors s) (once : L.OwnedOnce) : PacketRun cond s L
  | frame {s : Server} {L : Ledger} {heap : Heap} {w : World} {pkt : List UInt8} (run : PacketRun cond s L)
      (hcond : cond heap pkt s L) : PacketRun cond (s.netProcessPkt heap w pkt) (L.step heap pkt s)

/-- What receiving a frame does to the ledger: blocks numbered from `lo` on are made, the blocks `lost` are
nowhere any more, and what a handler gets has the blocks `owed`. -/
structure Received (lo hi : ℕ) (lost owed : List ℕ) (L L' : Ledger) : Prop where
  queued : L'.queued = L.queued
  made : ∃ k, L'.made = L.made ++ List.range' lo k ∧ lo + k ≤ hi
  tally : ∀ x, L'.tally x + lost.count x + owed.count x + L.made.count x = L.tally x + L'.made.count x

def Owned.lost (pkt : List UInt8) (o : Owned) : List ℕ :=
  if o.pkt.completes (fragOf pkt) (!ipMore pkt) then o.data.toList else []

def Ledger.lost (heap : Heap) (pkt : List UInt8) (net : NetDev TcpBinding) (L : Ledger) : List ℕ :=
  if copyOut pkt 0 6 = net.mac ∧ ipDst pkt = net.ipv4 ∧ byteAt pkt 14 / 16 = 4 ∧ isFragment pkt = true ∧
      heap.ok net.calls = true ∧ heap.ok net.next.calls = true then
    ((L.waiting.find? (Owned.waitsFor pkt)).map (Owned.lost pkt)).getD []
  else []

section Owners

variable {w : World} {s : Server} {L : Ledger} {p : IpPkt} {mac ip pkt : List UInt8} {heap : Heap} {n i x : ℕ}
  {net net' : NetDev TcpBinding} {o : Option IpPkt} {bs : List (Binding TcpBinding)} {b : Binding TcpBinding}
  {t : TcpBinding}

theorem insertPktFrag_fst {q : IpPkt} {f : IpPktFrag} {last : Bool} :
    (insertPktFrag heap n q f last).1 = (q.completes f last && heap.ok n) := by
  unfold insertPktFrag IpPkt.completes
  dsimp only
  cases last || q.haveLast
  · rfl
  · cases hasGap (insertFrag f q.frags)
    · cases heap.ok n <;> rfl
    · rfl

theorem insertAt_erases {f : IpPktFrag} {frag : ℕ × ℕ} {last : Bool} (h : L.waiting.map Owned.pkt = net.pkts) :
    ((L.insertAt heap n i f frag last).1.map Owned.pkt, (L.insertAt heap n i f frag last).2.waiting.map Owned.pkt) =
      match net.pkts[i]? with
      | none => (none, net.pkts)
      | some q =>
        (if (insertPktFrag heap n q f last).1 then some (insertPktFrag heap n q f last).2 else none,
          net.pkts.set i (insertPktFrag heap n q f last).2) := by
  unfold Ledger.insertAt
  rw [← h, List.getElem?_map]
  cases hi : L.waiting[i]? with
  | none => rfl
  | some o =>
    have hset : (L.waiting.set i (o.insertFrag heap n f frag last)).map Owned.pkt =
        (L.waiting.map Owned.pkt).set i (insertPktFrag heap n o.pkt f last).2 := List.map_set
    dsimp only [Option.map_some]
    rw [insertPktFrag_fst, ← hset]
    split_ifs <;> rfl

theorem findIdx_waitsFor (h : L.waiting.map Owned.pkt = net.pkts) :
    net.pkts.findIdx? (IpPkt.waitsFor (ipSrc pkt) (ipProtocol pkt) (ipIdent pkt)) =
      L.waiting.findIdx? (Owned.waitsFor pkt) := by
  rw [← h, List.findIdx?_map]
  rfl

theorem receiveFrag_erases (h : L.waiting.map Owned.pkt = net.pkts) :
    ((L.receiveFrag heap pkt net.calls).1.map Owned.pkt, (L.receiveFrag heap pkt net.calls).2.waiting.map Owned.pkt) =
      match getWaitingIpPkt heap (ipSrc pkt) (ipDst pkt) (ipProtocol pkt) (ipIdent pkt) net.next.next with
      | (none, net) => (none, net.pkts)
      | (some i, net) =>
        match net.pkts[i]? with
        | none => (none, net.pkts)
        | some q =>
          (if (insertPktFrag heap net.calls q (fragOf pkt) (!ipMore pkt)).1 then
              some (insertPktFrag heap net.calls q (fragOf pkt) (!ipMore pkt)).2 else none,
            net.pkts.set i (insertPktFrag heap net.calls q (fragOf pkt) (!ipMore pkt)).2) := by
  have hfind := @findIdx_waitsFor L pkt net h
  unfold Ledger.receiveFrag getWaitingIpPkt
  have hpkts : net.next.next.pkts = net.pkts := rfl
  rw [hpkts, hfind]
  cases L.waiting.findIdx? (Owned.waitsFor pkt) with
  | some i => exact insertAt_erases h
  | none =>
    dsimp only
    have hcalls : net.next.next.calls = net.calls + 2 := rfl
    rw [hcalls]
    split_ifs
    · have hnew : (Owned.mk (ipPktNew (ipSrc pkt) (ipDst pkt) (ipProtocol pkt) (ipIdent pkt)) (net.calls + 2) none [] ::
          L.waiting).map Owned.pkt = ipPktNew (ipSrc pkt) (ipDst pkt) (ipProtocol pkt) (ipIdent pkt) :: net.pkts := by
        rw [List.map_cons, h]
      exact @insertAt_erases { L.make [net.calls + 2] with waiting := _ } heap (net.calls + 3) 0
        { net.next.next.next with pkts := _ } (fragOf pkt) (net.calls, net.calls + 1) (!ipMore pkt) hnew
    · exact congrArg _ h

theorem receive_erases (h : L.waiting.map Owned.pkt = net.pkts) :
    ((L.receive heap pkt net).1.map Owned.pkt, (L.receive heap pkt net).2.waiting.map Owned.pkt) =
      ((receiveIpv4 heap pkt net).1, (receiveIpv4 heap pkt net).2.pkts) := by
  unfold Ledger.receive receiveIpv4
  split_ifs with h1 h2 h3 h4 h5 h6
  · exact congrArg _ h
  · exact congrArg _ h
  · exact congrArg _ h
  · exact congrArg _ h
  · exact congrArg _ h
  · rw [@receiveFrag_erases (L.make [net.calls, net.calls + 1]) pkt heap net h]
    dsimp only
    generalize getWaitingIpPkt heap (ipSrc pkt) (ipDst pkt) (ipProtocol pkt) (ipIdent pkt) net.next.next = g
    obtain ⟨oi, net1⟩ := g
    cases oi with
    | none => rfl
    | some i =>
      dsimp only
      cases net1.pkts[i]? with
      | none => rfl
      | some q =>
        unfold fragOf
        dsimp only
        split_ifs <;> rfl
  · exact congrArg _ h
  · exact congrArg _ h
  · exact Prod.ext rfl h

theorem blockCount_set {os : List Owned} {o o' : Owned} (hi : os[i]? = some o) (x : ℕ) :
    blockCount x (os.set i o') + o.blocks.count x = blockCount x os + o'.blocks.count x := by
  unfold blockCount
  induction os generalizing i with
  | nil => cases hi
  | cons d os ih =>
    cases i with
    | zero =>
      cases hi
      rw [List.set_cons_zero, List.map_cons, List.map_cons, List.sum_cons, List.sum_cons]
      omega
    | succ i =>
      have hrec := ih (i := i) hi
      rw [List.set_cons_succ, List.map_cons, List.map_cons, List.sum_cons, List.sum_cons]
      omega

theorem insertFrag_count {o : Owned} {f : IpPktFrag} {frag : ℕ × ℕ} {last : Bool} (x : ℕ) :
    (o.insertFrag heap n f frag last).blocks.count x + (if o.pkt.completes f last then o.data.toList else []).count x =
      o.blocks.count x + [frag.1, frag.2].count x + (if o.pkt.completes f last && heap.ok n then [n] else []).count x := by
  unfold Owned.insertFrag Owned.blocks
  dsimp only
  rw [List.count_cons, List.count_cons, List.count_append, List.count_append, List.flatMap_cons, List.count_append]
  cases o.pkt.completes f last
  · simp only [Bool.false_eq_true, if_false, Bool.false_and, List.count_nil]
    omega
  · cases heap.ok n
    · simp only [if_true, Bool.false_eq_true, if_false, Bool.and_false, List.count_nil, Option.toList_none]
      omega
    · simp only [if_true, Bool.and_true, Option.toList_some]
      omega

theorem insertAt_received {o : Owned} {frag : ℕ × ℕ} (hi : L.waiting[i]? = some o) :
    (L.insertAt heap n i (fragOf pkt) frag (!ipMore pkt)).2.queued = L.queued ∧
    (L.insertAt heap n i (fragOf pkt) frag (!ipMore pkt)).2.made =
      L.made ++ (if o.pkt.completes (fragOf pkt) (!ipMore pkt) && heap.ok n then [n] else []) ∧
    ∀ x, (L.insertAt heap n i (fragOf pkt) frag (!ipMore pkt)).2.tally x + (o.lost pkt).count x =
      L.tally x + [frag.1, frag.2].count x +
        (if o.pkt.completes (fragOf pkt) (!ipMore pkt) && heap.ok n then [n] else []).count x := by
  have hset := @blockCount_set i L.waiting o (o.insertFrag heap n (fragOf pkt) frag (!ipMore pkt)) hi
  have hcount := @insertFrag_count heap n o (fragOf pkt) frag (!ipMore pkt)
  unfold Ledger.insertAt Owned.lost
  rw [hi]
  dsimp only
  refine ⟨?_, ?_, ?_⟩
  · split_ifs <;> rfl
  · split_ifs
    · rfl
    · exact (List.append_nil _).symm
  · intro x
    have h1 := hset x
    have h2 := hcount x
    unfold Ledger.tally
    split_ifs at h2 ⊢
    all_goals
      dsimp only [Ledger.make]
      omega

theorem find_waitsFor (h : L.waiting.findIdx? (Owned.waitsFor pkt) = some i) :
    ∃ o, L.waiting[i]? = some o ∧ L.waiting.find? (Owned.waitsFor pkt) = some o := by
  obtain ⟨hlt, hp, hno⟩ := List.findIdx?_eq_some_iff_getElem.mp h
  refine ⟨L.waiting[i], List.getElem?_eq_getElem hlt, ?_⟩
  refine List.find?_eq_some_iff_getElem.mpr ⟨hp, i, hlt, rfl, ?_⟩
  intro j hj
  simpa using hno j hj

theorem receiveFrag_found (hi : L.waiting.findIdx? (Owned.waitsFor pkt) = some i) :
    Received n (n + 3) (((L.waiting.find? (Owned.waitsFor pkt)).map (Owned.lost pkt)).getD []) [] L
      ((L.make [n, n + 1]).receiveFrag heap pkt n).2 := by
  obtain ⟨o, ho, hf⟩ := find_waitsFor hi
  obtain ⟨h1, h2, h3⟩ := @insertAt_received (L.make [n, n + 1]) pkt heap (n + 2) i o (n, n + 1) ho
  have hmade : (L.make [n, n + 1]).made = L.made ++ [n, n + 1] := rfl
  have hfind : (L.make [n, n + 1]).waiting.findIdx? (Owned.waitsFor pkt) = some i := hi
  unfold Ledger.receiveFrag
  rw [hfind, hf]
  refine ⟨h1, ?_, fun x => ?_⟩
  · dsimp only
    rw [h2, hmade]
    split_ifs
    · exact ⟨3, List.append_assoc _ _ _, le_rfl⟩
    · exact ⟨2, List.append_nil _, Nat.le_succ _⟩
  · have hx := h3 x
    have htally : (L.make [n, n + 1]).tally x = L.tally x := rfl
    dsimp only [Option.map_some, Option.getD_some] at hx ⊢
    rw [h2, hmade, List.count_append, List.count_append, List.count_nil]
    omega

theorem blockCount_cons {o : Owned} {os : List Owned} : blockCount x (o :: os) = o.blocks.count x + blockCount x os := by
  unfold blockCount
  rw [List.map_cons, List.sum_cons]

theorem receiveFrag_new (hi : L.waiting.findIdx? (Owned.waitsFor pkt) = none) :
    Received n (if heap.ok (n + 2) then n + 4 else n + 3) [] [] L ((L.make [n, n + 1]).receiveFrag heap pkt n).2 := by
  have hfind : (L.make [n, n + 1]).waiting.findIdx? (Owned.waitsFor pkt) = none := hi
  unfold Ledger.receiveFrag
  rw [hfind]
  dsimp only
  split_ifs
  · let new : Owned := { pkt := ipPktNew (ipSrc pkt) (ipDst pkt) (ipProtocol pkt) (ipIdent pkt)
                         self := n + 2, data := none, frags := [] }
    generalize hL1 : ({ (L.make [n, n + 1]).make [n + 2] with waiting := new :: L.waiting } : Ledger) = L1
    have hwait : L1.waiting[0]? = some new := by rw [← hL1]; rfl
    have hmade : L1.made = L.made ++ [n, n + 1] ++ [n + 2] := by rw [← hL1]; rfl
    have htally : ∀ x, L1.tally x = L.tally x + [n + 2].count x := by
      intro x
      rw [← hL1]
      show L.freed.count x + blockCount x (new :: L.waiting) + (L.queued.map (blockCount x)).sum =
        L.freed.count x + blockCount x L.waiting + (L.queued.map (blockCount x)).sum + [n + 2].count x
      have hnew : new.blocks = [n + 2] := rfl
      rw [blockCount_cons, hnew]
      omega
    have hlost : new.lost pkt = [] := by
      unfold Owned.lost
      split_ifs <;> rfl
    obtain ⟨h1, h2, h3⟩ := @insertAt_received L1 pkt heap (n + 3) 0 new (n, n + 1) hwait
    have hres : ({ (L.make [n, n + 1]).make [n + 2] with waiting := new :: (L.make [n, n + 1]).waiting } : Ledger) = L1 := hL1
    rw [hres]
    refine ⟨h1.trans (by rw [← hL1]; rfl), ?_, fun x => ?_⟩
    · rw [h2, hmade]
      split_ifs
      · exact ⟨4, by rw [List.append_assoc, List.append_assoc]; rfl, le_rfl⟩
      · exact ⟨3, by rw [List.append_nil, List.append_assoc]; rfl, Nat.le_succ _⟩
    · have hx := h3 x
      rw [hlost, htally] at hx
      dsimp only at hx
      rw [h2, hmade, List.count_append, List.count_append, List.count_append, List.count_nil]
      rw [List.count_nil] at hx
      omega
  · refine ⟨rfl, ⟨2, rfl, Nat.le_succ _⟩, fun x => ?_⟩
    unfold Ledger.tally Ledger.free Ledger.make
    dsimp only
    simp only [List.count_append, List.count_cons, List.count_nil]
    omega

theorem Received.drop {hi : ℕ} (h : n + 1 ≤ hi) : Received n hi [] [] L ((L.make [n]).free [n]) := by
  refine ⟨rfl, ⟨1, rfl, h⟩, fun x => ?_⟩
  unfold Ledger.tally Ledger.free Ledger.make
  dsimp only
  rw [List.count_append, List.count_append, List.count_nil]
  omega

theorem Received.none {lo hi : ℕ} (h : lo ≤ hi) : Received lo hi [] [] L L :=
  ⟨rfl, ⟨0, (List.append_nil _).symm, h⟩, fun _ => rfl⟩

theorem receiveFrag_received (h : L.waiting.map Owned.pkt = net.pkts) (hp : (receiveIpv4 heap pkt net).2 = net')
    (hme : copyOut pkt 0 6 = net.mac ∧ ipDst pkt = net.ipv4 ∧ byteAt pkt 14 / 16 = 4 ∧ (ipOffset pkt > 0 ∨ ipMore pkt = true) ∧
      heap.ok net.calls = true ∧ heap.ok net.next.calls = true) :
    Received net.calls net'.calls (((L.waiting.find? (Owned.waitsFor pkt)).map (Owned.lost pkt)).getD []) [] L
      ((L.make [net.calls, net.calls + 1]).receiveFrag heap pkt net.calls).2 := by
  obtain ⟨h1, h2, h3, h4, h5, h6⟩ := hme
  have hidx := @findIdx_waitsFor L pkt net h
  have hpkts : net.next.next.pkts = net.pkts := rfl
  have hcalls : net.next.next.calls = net.calls + 2 := rfl
  unfold receiveIpv4 at hp
  rw [if_neg (not_not.mpr h1), if_neg (not_not.mpr h2), if_neg (not_not.mpr h3), if_pos h4, if_neg (by rw [h5]; decide),
    if_neg (by rw [h6]; decide)] at hp
  unfold getWaitingIpPkt at hp
  rw [hpkts, hidx, hcalls] at hp
  cases hi : L.waiting.findIdx? (Owned.waitsFor pkt) with
  | some i =>
    obtain ⟨o, ho, -⟩ := find_waitsFor hi
    have hget : net.pkts[i]? = some o.pkt := by
      rw [← h, List.getElem?_map, ho]
      rfl
    rw [hi] at hp
    dsimp only at hp
    rw [hpkts, hget] at hp
    have hlast : net'.calls = net.calls + 3 := by
      rw [← hp]
      dsimp only
      split_ifs <;> rfl
    rw [hlast]
    exact receiveFrag_found hi
  | none =>
    have hno : L.waiting.find? (Owned.waitsFor pkt) = none := by
      apply List.find?_eq_none.mpr
      intro o ho
      rw [List.findIdx?_eq_none_iff.mp hi o ho]
      decide
    rw [hi] at hp
    have hlast : net'.calls = if heap.ok (net.calls + 2) = true then net.calls + 4 else net.calls + 3 := by
      rw [← hp]
      dsimp only
      by_cases hok : heap.ok (net.calls + 2) = true
      · rw [if_pos hok, if_pos hok]
        dsimp only [List.getElem?_cons_zero]
        split_ifs <;> rfl
      · rw [if_neg hok, if_neg hok]
        rfl
    rw [hlast, hno]
    exact receiveFrag_new hi

def owed (pkt : List UInt8) (oo : Option Owned) : List ℕ := if isFragment pkt then [] else (oo.map Owned.blocks).getD []

theorem receive_received (h : L.waiting.map Owned.pkt = net.pkts) :
    Received net.calls (receiveIpv4 heap pkt net).2.calls (L.lost heap pkt net) (owed pkt (L.receive heap pkt net).1) L
      (L.receive heap pkt net).2 := by
  have howed : owed pkt none = [] := by
    unfold owed
    split_ifs <;> rfl
  by_cases hme : copyOut pkt 0 6 = net.mac ∧ ipDst pkt = net.ipv4 ∧ byteAt pkt 14 / 16 = 4 ∧
      (ipOffset pkt > 0 ∨ ipMore pkt = true) ∧ heap.ok net.calls = true ∧ heap.ok net.next.calls = true
  · have hfrag := receiveFrag_received h rfl hme
    obtain ⟨h1, h2, h3, h4, h5, h6⟩ := hme
    have hlost : L.lost heap pkt net = ((L.waiting.find? (Owned.waitsFor pkt)).map (Owned.lost pkt)).getD [] :=
      if_pos ⟨h1, h2, h3, decide_eq_true h4, h5, h6⟩
    have hno : owed pkt (L.receive heap pkt net).1 = [] := if_pos (decide_eq_true h4)
    rw [hlost, hno]
    have hreceive : L.receive heap pkt net = (L.make [net.calls, net.calls + 1]).receiveFrag heap pkt net.calls := by
      unfold Ledger.receive
      rw [if_neg (not_not.mpr h1), if_neg (not_not.mpr h2), if_neg (not_not.mpr h3), if_pos h4,
        if_neg (by rw [h5]; decide), if_neg (by rw [h6]; decide)]
    rw [hreceive]
    exact hfrag
  · have hlost : L.lost heap pkt net = [] := by
      unfold Ledger.lost
      apply if_neg
      rw [isFragment, decide_eq_true_iff]
      exact hme
    rw [hlost]
    unfold Ledger.receive receiveIpv4
    split_ifs with h1 h2 h3 h4 h5 h6
    · rw [howed]
      exact .none le_rfl
    · rw [howed]
      exact .none le_rfl
    · rw [howed]
      exact .none le_rfl
    · rw [howed]
      exact .none (Nat.le_succ _)
    · rw [howed]
      exact .drop (Nat.le_succ _)
    · simp only [Bool.not_eq_false] at h5 h6
      exact absurd ⟨not_not.mp h1, not_not.mp h2, not_not.mp h3, h4, h5, h6⟩ hme
    · rw [howed]
      exact .none (Nat.le_succ _)
    · rw [howed]
      exact .drop (Nat.le_succ _)
    · have hno : ¬ isFragment pkt = true := by
        rw [isFragment, decide_eq_true_iff]
        exact h4
      refine ⟨rfl, ⟨2, rfl, le_rfl⟩, fun x => ?_⟩
      unfold owed
      rw [if_neg hno]
      show L.tally x + ([] : List ℕ).count x + [net.calls, net.calls + 1].count x + L.made.count x =
        L.tally x + (L.made ++ [net.calls, net.calls + 1]).count x
      rw [List.count_append, List.count_nil]
      omega

theorem blockCount_append {os : List Owned} {o : Owned} : blockCount x (os ++ [o]) = blockCount x os + o.blocks.count x := by
  unfold blockCount
  rw [List.map_append, List.sum_append, List.map_singleton, List.sum_singleton]

theorem queued_modify {qs : List (List Owned)} {f : List Owned → List Owned} {k : ℕ} (hi : i < qs.length)
    (hf : ∀ q, blockCount x (f q) = blockCount x q + k) :
    ((qs.modify i f).map (blockCount x)).sum = (qs.map (blockCount x)).sum + k := by
  induction qs generalizing i with
  | nil => cases hi
  | cons q qs ih =>
    cases i with
    | zero =>
      rw [List.modify_zero_cons, List.map_cons, List.map_cons, List.sum_cons, List.sum_cons, hf]
      omega
    | succ i =>
      rw [List.modify_succ_cons, List.map_cons, List.map_cons, List.sum_cons, List.sum_cons,
        ih (Nat.lt_of_succ_lt_succ hi)]
      omega

def disposals (p : IpPkt) (s : Server) : ℕ :=
  if p.protocol = ipIcmp then 1
  else if p.protocol = ipTcp then if synUnknown p s then 2 else 1
  else if p.protocol = ipUdp ∧ word p.data 4 ≤ p.len then 1
  else 0

theorem freePkt_tally {o : Owned} : (L.freePkt o).tally x = L.tally x + o.blocks.count x := by
  unfold Ledger.freePkt Ledger.free Ledger.tally
  dsimp only
  rw [List.count_append]
  omega

theorem handOver_tally {o : Owned} (hq : L.queued.length = s.net.bindings.length) :
    (L.handOver o s).tally x = L.tally x + disposals o.pkt s * o.blocks.count x := by
  unfold Ledger.handOver disposals
  by_cases h1 : o.pkt.protocol = ipIcmp
  · rw [if_pos h1, if_pos h1, freePkt_tally]
    omega
  rw [if_neg h1, if_neg h1]
  by_cases h2 : o.pkt.protocol = ipTcp
  · rw [if_pos h2, if_pos h2]
    split_ifs
    · rw [freePkt_tally, freePkt_tally]
      omega
    · rw [freePkt_tally]
      omega
  rw [if_neg h2, if_neg h2]
  by_cases h3 : o.pkt.protocol = ipUdp
  · rw [if_pos h3]
    by_cases h4 : word o.pkt.data 4 > o.pkt.len
    · have hd : ¬ (o.pkt.protocol = ipUdp ∧ word o.pkt.data 4 ≤ o.pkt.len) := fun h => absurd h.2 (Nat.not_le.mpr h4)
      rw [if_pos h4, if_neg hd, Nat.zero_mul, Nat.add_zero]
    · have hd : o.pkt.protocol = ipUdp ∧ word o.pkt.data 4 ≤ o.pkt.len := ⟨h3, Nat.le_of_not_lt h4⟩
      rw [if_neg h4, if_pos hd, Nat.one_mul]
      split
      · exact freePkt_tally
      · rename_i i hf
        have hlt : i < L.queued.length := by
          rw [hq]
          exact (List.findIdx?_eq_some_iff_getElem.mp hf).1
        unfold Ledger.tally
        dsimp only
        rw [queued_modify hlt fun q => blockCount_append]
        show _ + (_ + o.blocks.count x) = _
        omega
  · have hd : ¬ (o.pkt.protocol = ipUdp ∧ word o.pkt.data 4 ≤ o.pkt.len) := fun h => h3 h.1
    rw [if_neg h3, if_neg hd, Nat.zero_mul, Nat.add_zero]

theorem handOver_made {o : Owned} : (L.handOver o s).made = L.made := by
  unfold Ledger.handOver
  split_ifs
  · rfl
  · rfl
  · rfl
  · rfl
  · split <;> rfl
  · rfl

theorem disposals_iff : disposals p s = (if isFragment pkt then 0 else 1) ↔ OneOwner pkt p s := by
  have h12 : ipIcmp ≠ ipTcp := by decide
  have h13 : ipIcmp ≠ ipUdp := by decide
  have h23 : ipTcp ≠ ipUdp := by decide
  unfold disposals OneOwner
  split_ifs <;> simp_all

theorem lost_length : (L.lost heap pkt net).length ≤ 1 := by
  have hone : ∀ o : Owned, (o.lost pkt).length ≤ 1 := by
    intro o
    unfold Owned.lost
    split_ifs
    · cases o.data <;> simp
    · exact Nat.zero_le _
  unfold Ledger.lost
  split_ifs
  · cases L.waiting.find? (Owned.waitsFor pkt) with
    | none => exact Nat.zero_le _
    | some o => exact hone o
  · exact Nat.zero_le _

theorem lost_eq_nil_iff : L.lost heap pkt net = [] ↔ ¬ Repeats heap pkt net L := by
  unfold Ledger.lost Repeats
  split_ifs with hme
  · cases hf : L.waiting.find? (Owned.waitsFor pkt) with
    | none => simp
    | some o =>
      rw [Option.map_some, Option.getD_some]
      unfold Owned.lost
      cases hd : o.data <;> simp [hme, hd]
  · exact ⟨fun _ h => hme h.1, fun _ => rfl⟩

theorem insertAt_frags {f : IpPktFrag} {frag : ℕ × ℕ} {last : Bool} {o : Owned}
    (h : (L.insertAt heap n i f frag last).1 = some o) : frag ∈ o.frags := by
  unfold Ledger.insertAt at h
  split at h
  · cases h
  · dsimp only at h
    split_ifs at h
    · cases h
      exact List.mem_cons_self

theorem receive_frags {o : Owned} (hfrag : isFragment pkt = true) (h : (L.receive heap pkt net).1 = some o) :
    (net.calls, net.calls + 1) ∈ o.frags := by
  have hif : ipOffset pkt > 0 ∨ ipMore pkt = true := of_decide_eq_true hfrag
  unfold Ledger.receive at h
  rw [if_pos hif] at h
  split_ifs at h
  unfold Ledger.receiveFrag at h
  split at h
  · exact insertAt_frags h
  · split_ifs at h
    exact insertAt_frags h

theorem Received.balanced {L' : Ledger} {lo hi : ℕ} {lost owed : List ℕ} (hr : Received lo hi lost owed L L')
    (ho : L.OwnedOnce) (hm : ∀ x ∈ L.made, x < lo) :
    L'.made.Nodup ∧ (∀ x ∈ L'.made, x < hi) ∧ ∀ x, L'.tally x + lost.count x + owed.count x = L'.made.count x := by
  obtain ⟨-, ⟨k, hmade, hle⟩, htally⟩ := hr
  obtain ⟨hnodup, hone⟩ := ho
  refine ⟨?_, ?_, ?_⟩
  · rw [hmade]
    refine List.nodup_append.mpr ⟨hnodup, List.nodup_range', ?_⟩
    rintro x hx _ hx' rfl
    have hlt := hm x hx
    have hge := (List.mem_range'_1.mp hx').1
    omega
  · intro x hx
    rw [hmade] at hx
    rcases List.mem_append.mp hx with hx | hx
    · have hlt := hm x hx
      omega
    · have hlt := (List.mem_range'_1.mp hx).2
      omega
  · intro x
    have h1 := htally x
    have h2 := hone x
    omega

theorem owned_iff_of_none {L' : Ledger} {lo hi : ℕ} {lost : List ℕ} (hr : Received lo hi lost [] L L')
    (ho : L.OwnedOnce) (hm : ∀ x ∈ L.made, x < lo) : L'.OwnedOnce ↔ lost = [] := by
  obtain ⟨hnodup, -, hbal⟩ := hr.balanced ho hm
  constructor
  · intro h
    apply List.eq_nil_iff_forall_not_mem.mpr
    intro x hx
    have h1 := hbal x
    have h2 := h.2 x
    have hpos := List.count_pos_iff.mpr hx
    rw [List.count_nil] at h1
    omega
  · rintro rfl
    refine ⟨hnodup, fun x => ?_⟩
    have h1 := hbal x
    rwa [List.count_nil] at h1

theorem handOver_owned {o : Owned} {L' : Ledger} {hi : ℕ} {lost : List ℕ} (hr : Received n hi lost (owed pkt (some o)) L L')
    (ho : L.OwnedOnce) (hm : ∀ x ∈ L.made, x < n) (hlost : lost.length ≤ 1)
    (hfrag : isFragment pkt = true → (n, n + 1) ∈ o.frags) (hno : isFragment pkt = false → lost = [])
    (hq : L'.queued.length = s.net.bindings.length) :
    (L'.handOver o s).OwnedOnce ↔ lost = [] ∧ OneOwner pkt o.pkt s := by
  obtain ⟨hnodup, -, hbal⟩ := hr.balanced ho hm
  have howned : (L'.handOver o s).OwnedOnce ↔
      ∀ x, disposals o.pkt s * o.blocks.count x = lost.count x + (owed pkt (some o)).count x := by
    unfold Ledger.OwnedOnce
    rw [handOver_made]
    constructor
    · rintro ⟨-, h⟩ x
      have h1 := h x
      have h2 := hbal x
      rw [handOver_tally hq] at h1
      omega
    · intro h
      refine ⟨hnodup, fun x => ?_⟩
      have h1 := h x
      have h2 := hbal x
      rw [handOver_tally hq]
      omega
  rw [howned, ← @disposals_iff s o.pkt pkt]
  unfold owed
  cases hf : isFragment pkt with
  | false =>
    rw [hno hf]
    rw [if_neg (by decide), if_neg (by decide)]
    have hself : 0 < o.blocks.count o.self := List.count_pos_iff.mpr List.mem_cons_self
    constructor
    · intro h
      refine ⟨rfl, ?_⟩
      have hx := h o.self
      rw [List.count_nil, Nat.zero_add] at hx
      exact Nat.eq_of_mul_eq_mul_right hself (hx.trans (Nat.one_mul _).symm)
    · rintro ⟨-, h⟩ x
      rw [h, List.count_nil, Nat.one_mul, Nat.zero_add]
      rfl
  | true =>
    rw [if_pos rfl, if_pos rfl]
    -- the two blocks of the fragment are not lost both
    have hmem : ∀ x, x = n ∨ x = n + 1 → 0 < o.blocks.count x := by
      intro x hx
      apply List.count_pos_iff.mpr
      apply List.mem_cons_of_mem
      apply List.mem_append_right
      refine List.mem_flatMap.mpr ⟨_, hfrag hf, ?_⟩
      rcases hx with rfl | rfl <;> simp
    constructor
    · intro h
      have h1 := h n
      have h2 := h (n + 1)
      have p1 := hmem n (.inl rfl)
      have p2 := hmem (n + 1) (.inr rfl)
      have hsum : lost.count n + lost.count (n + 1) ≤ 1 := by
        match lost, hlost with
        | [], _ => simp
        | [d], _ =>
          rw [List.count_singleton, List.count_singleton]
          simp only [beq_iff_eq]
          split_ifs <;> omega
      have hzero : disposals o.pkt s = 0 := by
        by_contra hne
        have hk := Nat.pos_of_ne_zero hne
        have m1 := Nat.mul_pos hk p1
        have m2 := Nat.mul_pos hk p2
        rw [List.count_nil] at h1 h2
        omega
      refine ⟨List.eq_nil_iff_forall_not_mem.mpr fun x hx => ?_, hzero⟩
      have hpos := List.count_pos_iff.mpr hx
      have hxx := h x
      rw [hzero, Nat.zero_mul, List.count_nil] at hxx
      omega
    · rintro ⟨rfl, h⟩ x
      rw [h, Nat.zero_mul, List.count_nil]

theorem mirrors_of_kept {s' : Server} (h : L.Mirrors s) (hk : s'.kept = s.kept) : L.Mirrors s' := by
  injection hk with hp hk
  injection hk with hb hc
  refine ⟨?_, ?_, ?_⟩
  · rw [hp]
    exact h.waiting
  · rw [hb]
    exact h.queued
  · rw [hc]
    exact h.made

theorem freePkt_mirrors {o : Owned} (h : L.Mirrors s) : (L.freePkt o).Mirrors s := ⟨h.waiting, h.queued, h.made⟩

theorem map_modify_comm {α β : Type} {f : α → β} {g : α → α} {g' : β → β} (hg : ∀ a, f (g a) = g' (f a)) (l : List α)
    (i : ℕ) : (l.modify i g).map f = (l.map f).modify i g' := by
  induction l generalizing i with
  | nil => cases i <;> rfl
  | cons a l ih =>
    cases i with
    | zero => rw [List.modify_zero_cons, List.map_cons, List.map_cons, List.modify_zero_cons, hg]
    | succ i => rw [List.modify_succ_cons, List.map_cons, List.map_cons, List.modify_succ_cons, ih]

theorem handOver_mirrors {o : Owned} (h : L.Mirrors s) : (L.handOver o s).Mirrors (s.handOver w o.pkt) := by
  unfold Ledger.handOver Server.handOver
  split_ifs with h1 h2 h2' h3 h4
  · apply freePkt_mirrors
    apply mirrors_of_kept h
    unfold handleIcmp
    split_ifs
    · split <;> rfl
    · rfl
  · exact freePkt_mirrors (freePkt_mirrors (mirrors_of_kept h handleTcp_kept))
  · exact freePkt_mirrors (mirrors_of_kept h handleTcp_kept)
  · apply mirrors_of_kept h
    unfold handleUdp
    rw [if_pos h4]
  · unfold handleUdp
    rw [if_neg h4]
    cases hf : findBindingIp protoUdp (word o.pkt.data 2) s.net.bindings with
    | none => exact freePkt_mirrors h
    | some i =>
      refine ⟨h.waiting, ?_, h.made⟩
      dsimp only
      let now : IpPkt := { o.pkt with srcPort := word o.pkt.data 0 }
      have hledger : ∀ q : List Owned, (q ++ [{ o with pkt := now }]).map Owned.pkt = q.map Owned.pkt ++ [now] :=
        fun q => List.map_append
      have hserver : ∀ b : Binding TcpBinding, ({ b with recvWait := b.recvWait ++ [now] } : Binding TcpBinding).recvWait =
          b.recvWait ++ [now] := fun b => rfl
      rw [@map_modify_comm _ _ (List.map Owned.pkt) _ (fun q => q ++ [now]) hledger, h.queued]
      exact (@map_modify_comm _ _ Binding.recvWait _ (fun q => q ++ [now]) hserver _ _).symm
  · exact h

theorem receive_mirrors (h : L.Mirrors s) (ho : L.OwnedOnce) :
    (L.receive heap pkt s.net).2.Mirrors { s with net := (receiveIpv4 heap pkt s.net).2 } := by
  have herase := @receive_erases L pkt heap s.net h.waiting
  have hrec := @receive_received L pkt heap s.net h.waiting
  injection herase with _ hpkts
  refine ⟨hpkts, ?_, (hrec.balanced ho h.made).2.1⟩
  have hb : (receiveIpv4 heap pkt s.net).2.bindings = s.net.bindings :=
    receiveIpv4_bindings (show receiveIpv4 heap pkt s.net = ((receiveIpv4 heap pkt s.net).1, _) from rfl)
  rw [hrec.queued, h.queued]
  dsimp only
  rw [hb]

theorem step_spec (hm : L.Mirrors s) (ho : L.OwnedOnce) :
    (∀ w, (L.step heap pkt s).Mirrors (s.netProcessPkt heap w pkt)) ∧
      ((L.step heap pkt s).OwnedOnce ↔ FrameOwned heap pkt s L) := by
  have hmir := @receive_mirrors s L pkt heap hm ho
  have hrec := @receive_received L pkt heap s.net hm.waiting
  have herase := @receive_erases L pkt heap s.net hm.waiting
  have hfrags := @receive_frags L pkt heap s.net
  unfold Ledger.step Server.netProcessPkt FrameOwned
  by_cases h8 : word pkt 12 = 0x0800
  · have h6 : ¬ word pkt 12 = 0x0806 := by omega
    simp only [if_pos h8, if_neg h6]
    generalize L.receive heap pkt s.net = x at hmir hrec herase hfrags
    obtain ⟨oo, L'⟩ := x
    generalize hr : receiveIpv4 heap pkt s.net = r at hmir hrec herase
    obtain ⟨pp, net'⟩ := r
    injection herase with herase _
    dsimp only at hmir hrec herase hfrags ⊢
    cases oo with
    | none =>
      cases herase
      dsimp only
      have hnone : owed pkt none = [] := by
        unfold owed
        split_ifs <;> rfl
      rw [hnone] at hrec
      refine ⟨fun w => hmir, (owned_iff_of_none hrec ho hm.made).trans (lost_eq_nil_iff.trans ?_)⟩
      constructor
      · rintro h -
        exact ⟨h, fun p net hp => by cases hp⟩
      · exact fun h => (h h8).1
    | some o =>
      cases herase
      dsimp only
      have hlen : L'.queued.length = ({ s with net := net' } : Server).net.bindings.length := by
        have hq := congrArg List.length hmir.queued
        rwa [List.length_map, List.length_map] at hq
      have hno : isFragment pkt = false → L.lost heap pkt s.net = [] := by
        intro hf
        apply if_neg
        rw [hf]
        simp
      refine ⟨fun w => handOver_mirrors hmir, ?_⟩
      rw [handOver_owned hrec ho hm.made lost_length (fun hf => hfrags hf rfl) hno hlen, lost_eq_nil_iff]
      constructor
      · rintro ⟨h1, h2⟩ -
        refine ⟨h1, ?_⟩
        rintro p net ⟨⟩
        exact h2
      · intro h
        exact ⟨(h h8).1, (h h8).2 _ _ rfl⟩
  · simp only [if_neg h8]
    refine ⟨fun w => ?_, fun _ h => absurd h h8, fun _ => ho⟩
    split_ifs
    · exact mirrors_of_kept hm handleArp_kept
    · exact hm

/-- In every run of frames whose packets find one owner and lose no data, from any state, every block that was
made for a packet is freed once or part of a packet on one queue; any other frame breaks this. -/
theorem packets_owned_once (run : PacketRun FrameOwned s L) : L.OwnedOnce ∧ L.Mirrors s ∧
    ∀ heap pkt, (L.step heap pkt s).OwnedOnce ↔ FrameOwned heap pkt s L := by
  have hinv : L.OwnedOnce ∧ L.Mirrors s := by
    induction run with
    | start mirrors once => exact ⟨once, mirrors⟩
    | frame run hcond ih =>
      obtain ⟨h1, h2⟩ := step_spec ih.2 ih.1
      exact ⟨h2.mpr hcond, h1 _⟩
  obtain ⟨ho, hm⟩ := hinv
  exact ⟨ho, hm, fun heap pkt => (step_spec hm ho).2⟩

def protocolFrame (protocol : UInt8) : List UInt8 :=
  [82, 84, 0, 18, 52, 86, 2, 0, 0, 0, 0, 1, 8, 0] ++
    [69, 0, 0, 28, 0, 7, 0, 0, 64, protocol, 0, 0, 192, 168, 10, 1, 192, 168, 10, 34] ++ [0, 7, 0, 80, 0, 8, 0, 0]

def firstFragment : List UInt8 :=
  [82, 84, 0, 18, 52, 86, 2, 0, 0, 0, 0, 1, 8, 0] ++
    [69, 0, 0, 28, 0, 7, 32, 0, 64, 17, 0, 0, 192, 168, 10, 1, 192, 168, 10, 34] ++ [0, 7, 0, 80, 0, 12, 0, 0]

def quietServer : Server :=
  { net := { mac := [82, 84, 0, 18, 52, 86], ipv4 := [192, 168, 10, 34], bindings := [], pkts := [], calls := 0 }
    arpEntries := [], arpRequests := [], nBindingId := 321
    io := { slot := none, waiting := [], replied := [], sent := [], segments := [], calls := 0 } }

def emptyLedger : Ledger := { made := [], freed := [], queued := [], waiting := [] }

theorem emptyLedger_start {cond : Heap → List UInt8 → Server → Ledger → Prop} :
    PacketRun cond quietServer emptyLedger :=
  .start ⟨rfl, rfl, fun x hx => by cases hx⟩ ⟨List.nodup_nil, fun _ => rfl⟩

def plenty : Heap := ⟨fun _ => true, fun _ => []⟩

def twoFrames : Server × Ledger :=
  (quietServer.netProcessPkt plenty ⟨fun _ => true, fun _ => true, fun _ => true⟩ (protocolFrame 17),
    emptyLedger.step plenty (protocolFrame 17) quietServer)

theorem packets_owned_once_udp :
    (twoFrames.2.step plenty firstFragment twoFrames.1).OwnedOnce ∧
    (twoFrames.2.step plenty firstFragment twoFrames.1).freed = [0, 1] ∧
    (twoFrames.2.step plenty firstFragment twoFrames.1).waiting.map Owned.blocks = [[4, 2, 3]] := by
  have hfirst : FrameOwned plenty (protocolFrame 17) quietServer emptyLedger := by
    refine fun _ => ⟨?_, ?_⟩
    · rintro ⟨-, o, ho, -⟩
      cases ho
    · rintro p net ⟨⟩
      exact .inr (.inr ⟨by decide +kernel, by decide +kernel⟩)
  have hrun : PacketRun FrameOwned twoFrames.1 twoFrames.2 := by
    dsimp only [twoFrames]
    exact .frame emptyLedger_start hfirst
  obtain ⟨-, -, hiff⟩ := packets_owned_once hrun
  refine ⟨?_, by decide +kernel, by decide +kernel⟩
  rw [hiff]
  refine fun _ => ⟨?_, ?_⟩
  · rintro ⟨-, o, ho, -⟩
    cases ho
  · intro p net hp
    cases hp

theorem packet_leaked : emptyLedger.Mirrors quietServer ∧ emptyLedger.OwnedOnce ∧
    (emptyLedger.step plenty (protocolFrame 2) quietServer).made = [0, 1] ∧
    (emptyLedger.step plenty (protocolFrame 2) quietServer).tally 0 = 0 ∧
    ¬ (emptyLedger.step plenty (protocolFrame 2) quietServer).OwnedOnce := by
  have hmade : (emptyLedger.step plenty (protocolFrame 2) quietServer).made = [0, 1] := by
    decide +kernel
  have htally : (emptyLedger.step plenty (protocolFrame 2) quietServer).tally 0 = 0 := by
    decide +kernel
  refine ⟨⟨rfl, rfl, fun x hx => by cases hx⟩, ⟨List.nodup_nil, fun _ => rfl⟩, hmade, htally, ?_⟩
  rintro ⟨-, h⟩
  have h0 := h 0
  rw [hmade, htally] at h0
  exact absurd h0 (by decide)

end Owners

end Agatha.Net
