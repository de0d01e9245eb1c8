import Agatha.Net.Server

namespace Agatha.Net

variable {τ : Type}

structure IpDatagram where
  src : List UInt8
  protocol : ℕ
  ident : ℕ
  payload : List UInt8

def IpDatagram.Carries (d : IpDatagram) (pkt : List UInt8) : Prop :=
  ipSrc pkt = d.src ∧ ipIdent pkt = d.ident ∧ ipProtocol pkt = d.protocol

def fragmentStart (pkt : List UInt8) : ℕ := (byteAt pkt 20 % 32 * 256 + byteAt pkt 21) * 8

structure IpDatagram.Fragment (d : IpDatagram) (net : NetDev τ) (pkt : List UInt8) : Prop where
  ipv4 : word pkt 12 = 0x0800 ∧ byteAt pkt 14 / 16 = 4
  forUs : copyOut pkt 0 6 = net.mac ∧ ipDst pkt = net.ipv4
  whole : 20 ≤ ipHdrLen pkt ∧ 14 + ipHdrLen pkt + ipLen pkt ≤ pkt.length
  part : fragmentStart pkt > 0 ∨ ipMore pkt = true
  more : ipMore pkt = true ↔ fragmentStart pkt + ipLen pkt < d.payload.length
  body : ipBody pkt = (d.payload.drop (fragmentStart pkt)).take (ipLen pkt)

structure IpDatagram.Arrived (d : IpDatagram) (net : NetDev τ) (frames : List (List UInt8)) : Prop where
  fragments : ∀ pkt ∈ frames, d.Carries pkt → d.Fragment net pkt
  all : ∀ i < d.payload.length, ∃ pkt ∈ frames, d.Carries pkt ∧
    fragmentStart pkt ≤ i ∧ i < fragmentStart pkt + ipLen pkt

def receiveAll (heap : Heap) (hs : Handlers τ) : List (List UInt8) → NetDev τ → List IpPkt × NetDev τ
  | [], net => ([], net)
  | pkt :: frames, net =>
    let handed := if word pkt 12 = 0x0806 then [] else
      if word pkt 12 = 0x0800 then (receiveIpv4 heap pkt net).1.toList else []
    let (rest, net) := receiveAll heap hs frames (netProcessPkt heap hs pkt net)
    (handed ++ rest, net)

def IpDatagram.Waits (d : IpDatagram) (net : NetDev τ) : Prop :=
  ∃ p ∈ net.pkts, p.waitsFor d.src d.protocol d.ident = true

def IpDatagram.Handed (d : IpDatagram) (p : IpPkt) : Bool := p.waitsFor d.src d.protocol d.ident

def IpDatagram.Reassembled (d : IpDatagram) (handed : List IpPkt) (net : NetDev τ) : Prop :=
  (∃ p, handed.filter d.Handed = [p] ∧ p.data = d.payload ∧ p.len = d.payload.length) ∧ ¬ d.Waits net

structure Handlers.KeepWaiting (hs : Handlers τ) : Prop where
  arp : ∀ pkt net, (hs.arp pkt net).pkts = net.pkts
  icmp : ∀ p net, (hs.icmp p net).pkts = net.pkts
  tcp : ∀ p net, (hs.tcp p net).pkts = net.pkts

section Waiting

variable {heap : Heap} {hs : Handlers τ} {net net' : NetDev τ} {d : IpDatagram} {pkt : List UInt8}
  {frames : List (List UInt8)} {o : Option IpPkt} {p q : IpPkt} {f : IpPktFrag}

theorem insertPktFrag_waitsFor {n : ℕ} {last : Bool} {src : List UInt8} {proto ident : ℕ} :
    (insertPktFrag heap n p f last).2.waitsFor src proto ident = p.waitsFor src proto ident := by
  unfold insertPktFrag
  dsimp only
  split_ifs <;> rfl

theorem waits_set {n i : ℕ} (hi : net.pkts[i]? = some p)
    (hq : ∀ src proto ident, q.waitsFor src proto ident = p.waitsFor src proto ident) (h : d.Waits net) :
    d.Waits { net with pkts := net.pkts.set i q, calls := n } := by
  obtain ⟨x, hx, hw⟩ := h
  obtain ⟨j, hj, rfl⟩ := List.mem_iff_getElem.mp hx
  obtain ⟨hlt, hp⟩ := List.getElem?_eq_some_iff.mp hi
  by_cases hij : i = j
  · subst hij
    refine ⟨q, List.mem_set hlt q, ?_⟩
    rw [hq, ← hp]
    exact hw
  · refine ⟨net.pkts[j], ?_, hw⟩
    apply List.mem_iff_getElem.mpr
    refine ⟨j, by rw [List.length_set]; exact hj, ?_⟩
    exact List.getElem_set_ne hij _

theorem getWaitingIpPkt_spec {src dst : List UInt8} {proto ident i : ℕ}
    (h : getWaitingIpPkt heap src dst proto ident net = (some i, net')) :
    (d.Waits net → d.Waits net') ∧ ∀ p, net'.pkts[i]? = some p → p.waitsFor src proto ident = true := by
  unfold getWaitingIpPkt at h
  split at h
  · rename_i j hj
    cases h
    refine ⟨id, ?_⟩
    intro p hp
    obtain ⟨hlt, hw, -⟩ := List.findIdx?_eq_some_iff_getElem.mp hj
    obtain ⟨_, rfl⟩ := List.getElem?_eq_some_iff.mp hp
    exact hw
  · split_ifs at h
    · cases h
      constructor
      · rintro ⟨x, hx, hw⟩
        exact ⟨x, List.mem_cons_of_mem _ hx, hw⟩
      · intro p hp
        cases hp
        unfold IpPkt.waitsFor ipPktNew
        simp
    · cases h

theorem getWaitingIpPkt_none {src dst : List UInt8} {proto ident : ℕ}
    (h : getWaitingIpPkt heap src dst proto ident net = (none, net')) : net'.pkts = net.pkts := by
  unfold getWaitingIpPkt at h
  split at h
  · cases h
  · split_ifs at h
    · cases h
    · cases h
      rfl

theorem waits_of_pkts (he : net'.pkts = net.pkts) (h : d.Waits net) : d.Waits net' := by
  obtain ⟨x, hx, hw⟩ := h
  exact ⟨x, by rw [he]; exact hx, hw⟩

theorem carries_of_waitsFor (h : p.waitsFor (ipSrc pkt) (ipProtocol pkt) (ipIdent pkt) = true)
    (hd : d.Handed p = true) : d.Carries pkt := by
  unfold IpDatagram.Handed at hd
  unfold IpPkt.waitsFor at h hd
  obtain ⟨h1, h2, h3⟩ := of_decide_eq_true h
  obtain ⟨g1, g2, g3⟩ := of_decide_eq_true hd
  exact ⟨h1.symm.trans g1, h2.symm.trans g2, h3.symm.trans g3⟩

theorem receiveIpv4_waits (h : receiveIpv4 heap pkt net = (o, net')) :
    (d.Waits net → d.Waits net') ∧
      (∀ p, o = some p → d.Handed p = true → d.Carries pkt ∧
        ((ipOffset pkt > 0 ∨ ipMore pkt = true) → d.Waits net')) := by
  unfold receiveIpv4 at h
  split_ifs at h with h1 h2 h3 hfrag h4 h5 h6 h7
  · cases h
    exact ⟨id, by simp⟩
  · cases h
    exact ⟨id, by simp⟩
  · cases h
    exact ⟨id, by simp⟩
  · cases h
    exact ⟨waits_of_pkts rfl, by simp⟩
  · cases h
    exact ⟨waits_of_pkts rfl, by simp⟩
  · dsimp only at h
    generalize hg : getWaitingIpPkt heap (ipSrc pkt) (ipDst pkt) (ipProtocol pkt) (ipIdent pkt)
      net.next.next = g at h
    obtain ⟨_ | i, net1⟩ := g
    · cases h
      have he : net'.pkts = net.next.next.pkts := getWaitingIpPkt_none hg
      exact ⟨waits_of_pkts he, by simp⟩
    · obtain ⟨hkeep, hfor⟩ := @getWaitingIpPkt_spec τ heap net.next.next net1 d _ _ _ _ _ hg
      have hkeep : d.Waits net → d.Waits net1 := fun hw => hkeep (waits_of_pkts rfl hw)
      dsimp only at h
      split at h
      · cases h
        exact ⟨hkeep, by simp⟩
      · rename_i p hp
        obtain ⟨hlt, -⟩ := List.getElem?_eq_some_iff.mp hp
        have hq : ∀ src proto ident, (insertPktFrag heap net1.calls p
            { offset := ipOffset pkt, len := ipLen pkt, data := ipBody pkt } (!ipMore pkt)).2.waitsFor
              src proto ident = p.waitsFor src proto ident := fun _ _ _ => insertPktFrag_waitsFor
        generalize insertPktFrag heap net1.calls p
          { offset := ipOffset pkt, len := ipLen pkt, data := ipBody pkt } (!ipMore pkt) = r at h hq
        obtain ⟨complete, q⟩ := r
        dsimp only at h hq
        split_ifs at h
        · cases h
          refine ⟨fun hw => waits_set hp hq (hkeep hw), ?_⟩
          rintro _ ⟨⟩ hd
          refine ⟨carries_of_waitsFor (by rw [hq]; exact hfor p hp) hd, ?_⟩
          intro _
          exact ⟨q, List.mem_set hlt q, hd⟩
        · cases h
          exact ⟨fun hw => waits_set hp hq (hkeep hw), by simp⟩
  · cases h
    exact ⟨waits_of_pkts rfl, by simp⟩
  · cases h
    exact ⟨waits_of_pkts rfl, by simp⟩
  · cases h
    refine ⟨waits_of_pkts rfl, ?_⟩
    rintro _ ⟨⟩ hd
    refine ⟨carries_of_waitsFor (by unfold IpPkt.waitsFor ipPktNew; simp) hd, ?_⟩
    intro hf
    exact absurd hf hfrag

theorem handleUdp_pkts : (handleUdp p net).pkts = net.pkts := by
  unfold handleUdp
  split_ifs
  · rfl
  · split <;> rfl

theorem handOver_pkts (hk : hs.KeepWaiting) : (handOver hs p net).pkts = net.pkts := by
  unfold handOver
  split_ifs
  · exact hk.icmp p net
  · exact hk.tcp p net
  · exact handleUdp_pkts
  · rfl

theorem netProcessPkt_waits (hk : hs.KeepWaiting) (h : d.Waits net) : d.Waits (netProcessPkt heap hs pkt net) := by
  unfold netProcessPkt handleIpv4
  split_ifs
  · exact waits_of_pkts (hk.arp pkt net) h
  · generalize hr : receiveIpv4 heap pkt net = r
    obtain ⟨_ | p, net'⟩ := r
    · exact (receiveIpv4_waits hr).1 h
    · exact waits_of_pkts (handOver_pkts hk) ((receiveIpv4_waits hr).1 h)
  · exact h

theorem receiveAll_waits (hk : hs.KeepWaiting) (h : d.Waits net) : d.Waits (receiveAll heap hs frames net).2 := by
  induction frames generalizing net with
  | nil => exact h
  | cons pkt frames ih =>
    unfold receiveAll
    exact ih (netProcessPkt_waits hk h)

theorem part_of_fragment (h : fragmentStart pkt > 0 ∨ ipMore pkt = true) :
    ipOffset pkt > 0 ∨ ipMore pkt = true := by
  apply h.imp_left
  intro hs
  apply Nat.pos_of_ne_zero
  intro h0
  unfold ipOffset at h0
  unfold fragmentStart at hs
  obtain ⟨h1, h2⟩ := Nat.or_eq_zero_iff.mp h0
  omega

theorem netProcessPkt_handed (hk : hs.KeepWaiting) (hpart : d.Carries pkt → fragmentStart pkt > 0 ∨ ipMore pkt = true)
    (h8 : word pkt 12 = 0x0800) (hp : (receiveIpv4 heap pkt net).1 = some p) (hd : d.Handed p = true) :
    d.Waits (netProcessPkt heap hs pkt net) := by
  have h6 : ¬ word pkt 12 = 0x0806 := by omega
  unfold netProcessPkt handleIpv4
  rw [if_neg h6, if_pos h8]
  generalize hr : receiveIpv4 heap pkt net = r at hp
  obtain ⟨o, net'⟩ := r
  cases hp
  obtain ⟨hc, hw⟩ := (receiveIpv4_waits hr).2 p rfl hd
  exact waits_of_pkts (handOver_pkts hk) (hw (part_of_fragment (hpart hc)))

theorem receiveAll_handed (hk : hs.KeepWaiting)
    (hf : ∀ pkt ∈ frames, d.Carries pkt → fragmentStart pkt > 0 ∨ ipMore pkt = true)
    (hp : p ∈ (receiveAll heap hs frames net).1) (hd : d.Handed p = true) :
    d.Waits (receiveAll heap hs frames net).2 := by
  induction frames generalizing net with
  | nil => cases hp
  | cons pkt frames ih =>
    unfold receiveAll at hp ⊢
    dsimp only at hp ⊢
    rcases List.mem_append.mp hp with hp | hp
    · split_ifs at hp with h6 h8
      · cases hp
      · rw [Option.mem_toList] at hp
        exact receiveAll_waits hk (netProcessPkt_handed hk (hf pkt List.mem_cons_self) h8 hp hd)
      · cases hp
    · apply ih _ hp
      intro x hx
      exact hf x (List.mem_cons_of_mem _ hx)

theorem fragments_never_leave (hk : hs.KeepWaiting) (ha : d.Arrived net frames) :
    ¬ d.Reassembled (receiveAll heap hs frames net).1 (receiveAll heap hs frames net).2 := by
  rintro ⟨⟨p, hp, -⟩, hn⟩
  apply hn
  have hmem : p ∈ (receiveAll heap hs frames net).1.filter d.Handed := by
    rw [hp]
    exact List.mem_singleton_self p
  obtain ⟨hin, hd⟩ := List.mem_filter.mp hmem
  exact receiveAll_handed hk (fun pkt hpkt hc => (ha.fragments pkt hpkt hc).part) hin hd

theorem len_of_handed {handed : List IpPkt} {n : ℕ} (hp : handed.filter d.Handed = [p])
    (hn : handed.map IpPkt.len = [n]) : p.len = n := by
  have hmem : p ∈ handed.filter d.Handed := by
    rw [hp]
    exact List.mem_singleton_self p
  have hlen : p.len ∈ handed.map IpPkt.len := List.mem_map_of_mem (List.mem_of_mem_filter hmem)
  rw [hn] at hlen
  exact List.mem_singleton.mp hlen

def pieceFrame (hi lo x : UInt8) : List UInt8 :=
  [82, 84, 0, 18, 52, 86, 2, 0, 0, 0, 0, 1, 8, 0] ++
    [69, 0, 0, 28, 0, 7, hi, lo, 64, 17, 0, 0, 192, 168, 10, 1, 192, 168, 10, 34] ++ List.replicate 8 x

def fragmentNet : NetDev Unit :=
  { mac := [82, 84, 0, 18, 52, 86], ipv4 := [192, 168, 10, 34], pkts := [], calls := 0, bindings := [] }

def twoPieces : IpDatagram :=
  { src := [192, 168, 10, 1], protocol := ipUdp, ident := 7
    payload := List.replicate 8 1 ++ List.replicate 8 2 }

theorem twoPieces_arrived : twoPieces.Arrived fragmentNet [pieceFrame 32 0 1, pieceFrame 0 1 2] := by
  have h1 : twoPieces.Fragment fragmentNet (pieceFrame 32 0 1) := by
    constructor <;> decide +kernel
  have h2 : twoPieces.Fragment fragmentNet (pieceFrame 0 1 2) := by
    constructor <;> decide +kernel
  constructor
  · intro pkt hpkt _
    rcases List.mem_pair.mp hpkt with rfl | rfl
    · exact h1
    · exact h2
  · intro i hi
    have hi : i < 16 := hi
    by_cases h8 : i < 8
    · refine ⟨_, List.mem_cons_self, ⟨by decide +kernel, by decide +kernel, by decide +kernel⟩, ?_⟩
      have hs : fragmentStart (pieceFrame 32 0 1) = 0 := by decide +kernel
      have hl : ipLen (pieceFrame 32 0 1) = 8 := by decide +kernel
      omega
    · refine ⟨_, List.mem_cons_of_mem _ List.mem_cons_self,
        ⟨by decide +kernel, by decide +kernel, by decide +kernel⟩, ?_⟩
      have hs : fragmentStart (pieceFrame 0 1 2) = 8 := by decide +kernel
      have hl : ipLen (pieceFrame 0 1 2) = 8 := by decide +kernel
      omega

theorem fragments_never_leave_two : twoPieces.Arrived fragmentNet [pieceFrame 32 0 1, pieceFrame 0 1 2] ∧
    ¬ twoPieces.Reassembled
      (receiveAll ⟨fun _ => true, fun _ => []⟩ ⟨fun _ net => net, fun _ net => net, fun _ net => net⟩
        [pieceFrame 32 0 1, pieceFrame 0 1 2] fragmentNet).1
      (receiveAll ⟨fun _ => true, fun _ => []⟩ ⟨fun _ net => net, fun _ net => net, fun _ net => net⟩
        [pieceFrame 32 0 1, pieceFrame 0 1 2] fragmentNet).2 :=
  ⟨twoPieces_arrived, fragments_never_leave ⟨fun _ _ => rfl, fun _ _ => rfl, fun _ _ => rfl⟩ twoPieces_arrived⟩

theorem fragments_shrunk : twoPieces.Arrived fragmentNet [pieceFrame 32 0 1, pieceFrame 0 1 2] ∧
    ∃ handed net, receiveAll ⟨fun _ => true, fun _ => []⟩
        ⟨fun _ net => net, fun _ net => net, fun _ net => net⟩
        [pieceFrame 32 0 1, pieceFrame 0 1 2] fragmentNet = (handed, net) ∧
      handed.map IpPkt.len = [9] ∧ net.pkts.length = 1 ∧ ¬ twoPieces.Reassembled handed net := by
  refine ⟨twoPieces_arrived, _, _, rfl, by decide +kernel, by decide +kernel, ?_⟩
  rintro ⟨⟨p, hp, -, hlen⟩, -⟩
  have h9 : p.len = 9 := len_of_handed hp (by decide +kernel)
  rw [hlen] at h9
  exact absurd h9 (by decide +kernel)

end Waiting

section Servers

variable {heap : Heap} {w : World} {s : Server} {d : IpDatagram} {pkt : List UInt8} {frames : List (List UInt8)}
  {p : IpPkt}

theorem kept_pkts {s' : Server} (h : s'.kept = s.kept) : s'.net.pkts = s.net.pkts := by
  unfold Server.kept at h
  exact (Prod.mk.inj h).1

theorem Server.handOver_pkts : (s.handOver w p).net.pkts = s.net.pkts := by
  unfold Server.handOver
  split_ifs
  · exact kept_pkts (@handleIcmp_kept w s p)
  · exact kept_pkts (@handleTcp_kept w s p)
  · exact handleUdp_pkts
  · rfl

theorem Server.netProcessPkt_waits (h : d.Waits s.net) : d.Waits (s.netProcessPkt heap w pkt).net := by
  unfold Server.netProcessPkt
  split_ifs
  · exact waits_of_pkts (kept_pkts (@handleArp_kept w s pkt)) h
  · generalize hr : receiveIpv4 heap pkt s.net = r
    obtain ⟨_ | p, net'⟩ := r
    · exact (receiveIpv4_waits hr).1 h
    · exact waits_of_pkts Server.handOver_pkts ((receiveIpv4_waits hr).1 h)
  · exact h

def Server.receiveAll (heap : Heap) (w : World) : List (List UInt8) → Server → List IpPkt × Server
  | [], s => ([], s)
  | pkt :: frames, s =>
    let handed := if word pkt 12 = 0x0806 then [] else
      if word pkt 12 = 0x0800 then (receiveIpv4 heap pkt s.net).1.toList else []
    let (rest, s) := Server.receiveAll heap w frames (s.netProcessPkt heap w pkt)
    (handed ++ rest, s)

theorem Server.receiveAll_waits (h : d.Waits s.net) : d.Waits (Server.receiveAll heap w frames s).2.net := by
  induction frames generalizing s with
  | nil => exact h
  | cons pkt frames ih =>
    unfold Server.receiveAll
    exact ih (Server.netProcessPkt_waits h)

theorem Server.netProcessPkt_handed (hpart : d.Carries pkt → fragmentStart pkt > 0 ∨ ipMore pkt = true)
    (h8 : word pkt 12 = 0x0800) (hp : (receiveIpv4 heap pkt s.net).1 = some p) (hd : d.Handed p = true) :
    d.Waits (s.netProcessPkt heap w pkt).net := by
  have h6 : ¬ word pkt 12 = 0x0806 := by omega
  unfold Server.netProcessPkt
  rw [if_neg h6, if_pos h8]
  generalize hr : receiveIpv4 heap pkt s.net = r at hp
  obtain ⟨o, net'⟩ := r
  cases hp
  obtain ⟨hc, hw⟩ := (receiveIpv4_waits hr).2 p rfl hd
  exact waits_of_pkts Server.handOver_pkts (hw (part_of_fragment (hpart hc)))

theorem Server.receiveAll_handed
    (hf : ∀ pkt ∈ frames, d.Carries pkt → fragmentStart pkt > 0 ∨ ipMore pkt = true)
    (hp : p ∈ (Server.receiveAll heap w frames s).1) (hd : d.Handed p = true) :
    d.Waits (Server.receiveAll heap w frames s).2.net := by
  induction frames generalizing s with
  | nil => cases hp
  | cons pkt frames ih =>
    unfold Server.receiveAll at hp ⊢
    dsimp only at hp ⊢
    rcases List.mem_append.mp hp with hp | hp
    · split_ifs at hp with h6 h8
      · cases hp
      · rw [Option.mem_toList] at hp
        exact Server.receiveAll_waits (Server.netProcessPkt_handed (hf pkt List.mem_cons_self) h8 hp hd)
      · cases hp
    · apply ih _ hp
      intro x hx
      exact hf x (List.mem_cons_of_mem _ hx)

theorem server_fragments_stay (ha : d.Arrived s.net frames) :
    ¬ d.Reassembled (Server.receiveAll heap w frames s).1 (Server.receiveAll heap w frames s).2.net := by
  rintro ⟨⟨p, hp, -⟩, hn⟩
  have hmem : p ∈ (Server.receiveAll heap w frames s).1.filter d.Handed := by
    rw [hp]
    exact List.mem_singleton_self p
  obtain ⟨hin, hd⟩ := List.mem_filter.mp hmem
  exact hn (Server.receiveAll_handed (fun pkt hpkt hc => (ha.fragments pkt hpkt hc).part) hin hd)

end Servers

end Agatha.Net
