import Agatha.Net.AcceptSlot

namespace Agatha.Net

def mtu : ℕ := 1200

def Io.SentFit (io : Io) : Prop := ∀ n ∈ io.sent, n ≤ mtu

def Con.Fits (c : Con) : Prop := ∀ t ∈ c.sending, frameLen (20 + t.len) ≤ mtu

def ConsFit (bs : List (Binding TcpBinding)) : Prop := ∀ b ∈ bs, ∀ c ∈ b.tcp.all, c.Fits

def WritesFit (rs : List ArpRequest) : Prop :=
  ∀ r ∈ rs, ∀ u, r.func = .udpWrite u → frameLen (8 + u.len) ≤ mtu

structure Server.Bounded (s : Server) : Prop where
  sent : s.io.SentFit
  cons : ConsFit s.net.bindings
  writes : WritesFit s.arpRequests

def EchoFits (p : IpPkt) (s : Server) : Prop :=
  p.protocol = ipIcmp → byteAt p.data 0 = 8 → s.arpMatchIp p.srcIpv4 ≠ none →
    frameLen (8 + lenSub p.len 8) ≤ mtu

def EchoesFit (heap : Heap) (w : World) : List (List UInt8) → Server → Prop
  | [], _ => True
  | pkt :: pkts, s =>
    (word pkt 12 = 0x0800 → ∀ p net, receiveIpv4 heap pkt s.net = (some p, net) → EchoFits p { s with net := net }) ∧
      EchoesFit heap w pkts (s.netProcessPkt heap w pkt)

def NetEvent.FitsMtu (w : World) (s : Server) : NetEvent → Prop
  | .message pid give rq => rq.type = netWrite → ∀ b, Names pid rq s b →
      (b.proto = protoUdp → (s.received pid give).io.Maps w → frameLen (8 + rq.len) ≤ mtu) ∧
      (b.proto = protoTcp → ∀ c, NamesCon rq b c → c.state = .established → c.rcv.closing = false →
        frameLen (20 + rq.len) ≤ mtu)
  | .frames heap pkts => s.io.slot = none → EchoesFit heap w pkts s

section Frames

variable {w : World} {s s' : Server} {io io' : Io} {pid : ℤ} {c c' : Con} {i j len : ℕ}
  {b : Binding TcpBinding} {bs bs' : List (Binding TcpBinding)} {rs : List ArpRequest} {p : IpPkt}
  {t t' : TcpBinding} {mac ip pkt : List UInt8} {u : UdpWriteReq} {cap : Cap} {heap : Heap} {rq : NetReq}

theorem plain_fits {n : ℕ} (hlen : frameLen (20 + len) ≤ mtu) (h : Plain len n) : frameLen (20 + n) ≤ mtu := by
  rcases h with rfl | rfl
  · decide
  · exact hlen

theorem Mild.fits (h : Mild len (c, io) (c', io')) (hlen : frameLen (20 + len) ≤ mtu) (hc : c.Fits)
    (hio : io.SentFit) : c'.Fits ∧ io'.SentFit := by
  constructor
  · intro t ht
    rcases h.sending t ht with ht | hp
    · exact hc t ht
    · exact plain_fits hlen hp
  · intro n hn
    rcases h.sent n hn with hn | ⟨t, ht | hp, rfl⟩
    · exact hio n hn
    · exact hc t ht
    · exact plain_fits hlen hp

theorem BindingStep.fits (h : BindingStep 0 t io t' io') (hc : ∀ c ∈ t.all, c.Fits) (hio : io.SentFit) :
    (∀ c ∈ t'.all, c.Fits) ∧ io'.SentFit := by
  have hzero : ∀ {n : ℕ}, Plain 0 n → frameLen (20 + n) ≤ mtu := plain_fits (by decide)
  constructor
  · intro c hc' q hq
    rcases h.queued c hc' q hq with hp | ⟨d, hd, hq⟩
    · exact hzero hp
    · exact hc d hd q hq
  · intro n hn
    rcases h.sent n hn with hn | ⟨q, hp | ⟨d, hd, hq⟩, rfl⟩
    · exact hio n hn
    · exact hzero hp
    · exact hc d hd q hq

theorem consFit_set (h : ConsFit bs) (ht : ∀ c ∈ t.all, c.Fits) : ConsFit (bs.set i { b with tcp := t }) := by
  intro d hd
  rcases List.mem_or_eq_of_mem_set hd with hd | rfl
  · exact h d hd
  · exact ht

theorem consFit_congr (h : ConsFit bs) (he : bs.map (fun b => b.tcp) = bs'.map fun b => b.tcp) : ConsFit bs' := by
  intro b hb
  have hmem : b.tcp ∈ bs.map fun b => b.tcp := by
    rw [he]
    exact List.mem_map_of_mem hb
  obtain ⟨d, hd, htcp⟩ := List.mem_map.mp hmem
  rw [← htcp]
  exact h d hd

theorem setCon_fits (hall : ∀ d ∈ t.all, d.Fits) (hc : c.Fits) : ∀ d ∈ (t.setCon j c).all, d.Fits := by
  intro d hd
  rcases List.mem_append.mp hd with hd | hd
  · exact hall d (List.mem_append_left _ hd)
  · rcases List.mem_or_eq_of_mem_set hd with hd | rfl
    · exact hall d (List.mem_append_right _ hd)
    · exact hc

theorem Server.Bounded.setCon (h : s.Bounded) (hi : s.net.bindings[i]? = some b) (hc : c.Fits) (hio : io.SentFit) :
    (s.setTcp i b (b.tcp.setCon j c) io).Bounded :=
  ⟨hio, consFit_set h.cons (setCon_fits (h.cons b (List.mem_of_getElem? hi)) hc), h.writes⟩

theorem fits_of_get (h : s.Bounded) (hi : s.net.bindings[i]? = some b) (hj : b.tcp.cons[j]? = some c) : c.Fits :=
  h.cons b (List.mem_of_getElem? hi) c (mem_all_of_get hj)

theorem sendIpv4Pkt_fits {n : ℕ} (h : io.SentFit) (hn : frameLen n ≤ mtu) : (io.sendIpv4Pkt w n).2.SentFit := by
  intro k hk
  rcases sendIpv4Pkt_sent hk with hk | rfl
  · exact h k hk
  · exact hn

theorem replyCap_sent : (io.replyCap pid).sent = io.sent := by
  unfold Io.replyCap
  split
  · rfl
  · split_ifs
    · exact reply_sent
    · exact reply_sent

theorem unmapAddr_sent : (io.unmapAddr w cap).sent = io.sent := by
  unfold Io.unmapAddr
  split
  · split_ifs <;> rfl
  · split_ifs <;> rfl
  · rfl

theorem frameMapAnywhere_sent : (io.frameMapAnywhere w).2.sent = io.sent := by
  unfold Io.frameMapAnywhere
  split
  · rfl
  · split_ifs <;> rfl

theorem sentFit_of_eq (h : io.SentFit) (he : io'.sent = io.sent) : io'.SentFit := by
  intro n hn
  exact h n (he ▸ hn)

theorem connectTcpArp_bounded {bid : ℤ} {con : ℕ} (h : s.Bounded) : (connectTcpArp w bid con mac s).Bounded := by
  unfold connectTcpArp
  split
  · exact h
  · split
    · exact h
    · rename_i i _ _ b hi
      split
      · exact h
      · split
        · exact h
        · rename_i j _ _ c hj
          have hq := @sendTcpPkt_quiet w 0 ({ c with macRem := mac }, s.io)
          generalize sendTcpPkt w ({ c with macRem := mac }, s.io) = x at hq
          obtain ⟨c', io'⟩ := x
          have hc : c.Fits := fits_of_get h hi hj
          obtain ⟨hc', hio'⟩ := hq.toMild.fits (by decide) hc h.sent
          exact h.setCon hi hc' hio'

theorem udpWriteFinish_fits (h : io.SentFit) (hu : frameLen (8 + u.len) ≤ mtu) : (udpWriteFinish w u io).SentFit := by
  have hs := @sendIpv4Pkt_fits w io (8 + u.len) h hu
  unfold udpWriteFinish
  generalize io.sendIpv4Pkt w (8 + u.len) = x at hs
  obtain ⟨sent, io'⟩ := x
  dsimp only
  split_ifs
  · exact sentFit_of_eq hs (replyCap_sent.trans unmapAddr_sent)
  · exact hs

theorem ArpFunc.run_bounded {f : ArpFunc} (h : s.Bounded) (hf : ∀ u, f = .udpWrite u → frameLen (8 + u.len) ≤ mtu) :
    (f.run w mac s).Bounded := by
  cases f with
  | connect bid con => exact connectTcpArp_bounded h
  | udpWrite u => exact ⟨udpWriteFinish_fits h.sent (hf u rfl), h.cons, h.writes⟩

theorem runRequests_bounded {todo : List ArpRequest} (h : s.Bounded) (ht : WritesFit todo) :
    (runRequests w mac todo s).Bounded := by
  induction todo generalizing s with
  | nil => exact h
  | cons r next ih =>
    unfold runRequests
    apply ih
    · exact ArpFunc.run_bounded h (ht r List.mem_cons_self)
    · exact fun r hr => ht r (List.mem_cons_of_mem _ hr)

theorem arpAddEntry_bounded (h : s.Bounded) : (arpAddEntry w ip mac s).Bounded := by
  have hfilter : ∀ q : ArpRequest → Bool, WritesFit (s.arpRequests.filter q) :=
    fun q r hr => h.writes r (List.mem_of_mem_filter hr)
  unfold arpAddEntry
  dsimp only
  split
  · exact runRequests_bounded ⟨h.sent, h.cons, hfilter _⟩ (hfilter _)
  · split_ifs
    · exact runRequests_bounded ⟨h.sent, h.cons, hfilter _⟩ (hfilter _)
    · exact ⟨h.sent, h.cons, h.writes⟩

theorem sendArp_fits (h : io.SentFit) : io.sendArp.SentFit := by
  intro n hn
  rcases List.mem_append.mp hn with hn | hn
  · exact h n hn
  · rw [List.mem_singleton.mp hn]
    decide

theorem handleArp_bounded (h : s.Bounded) : (handleArp w pkt s).Bounded := by
  unfold handleArp handleArpRequest
  dsimp only
  split_ifs
  · exact h
  · exact h
  · exact h
  · exact arpAddEntry_bounded ⟨sendArp_fits h.sent, h.cons, h.writes⟩
  · exact ⟨h.sent, h.cons, h.writes⟩
  · exact h
  · exact arpAddEntry_bounded h
  · exact h
  · exact h

theorem handleTcp_bounded (h : s.Bounded) (hs : s.Settled) : (handleTcp w p s).Bounded := by
  unfold handleTcp
  split
  · exact h
  · split
    · exact h
    · rename_i i _ _ b hi
      have hmem := List.mem_of_getElem? hi
      obtain ⟨hstep, -⟩ := @tcpInput_spec w s.io b.procId p (s.arpMatchIp p.srcIpv4) 0 b.tcp (hs.proper b hmem)
      obtain ⟨hc, hio⟩ := hstep.fits (h.cons b hmem) h.sent
      exact ⟨hio, consFit_set h.cons hc, h.writes⟩

theorem handOver_bounded (h : s.Bounded) (hs : s.Settled) (hecho : EchoFits p s) : (s.handOver w p).Bounded := by
  unfold Server.handOver
  split_ifs with h1 h2 h3
  · unfold handleIcmp
    split_ifs with h8
    · split
      · exact h
      · rename_i mac hmac
        exact ⟨sendIpv4Pkt_fits h.sent (hecho h1 h8 (by rw [hmac]; exact Option.some_ne_none _)), h.cons, h.writes⟩
    · exact h
  · exact handleTcp_bounded h hs
  · refine ⟨h.sent, ?_, h.writes⟩
    apply consFit_congr h.cons
    have htcp := congrArg (List.map Prod.snd) (@handleUdp_clients p s.net)
    rw [List.map_map, List.map_map] at htcp
    exact htcp.symm
  · exact h

theorem netProcessPkt_bounded (h : s.Bounded) (hs : s.Settled)
    (hecho : word pkt 12 = 0x0800 → ∀ p net, receiveIpv4 heap pkt s.net = (some p, net) → EchoFits p { s with net := net }) :
    (s.netProcessPkt heap w pkt).Bounded := by
  unfold Server.netProcessPkt
  split_ifs with h6 h8
  · exact handleArp_bounded h
  · have hnet : ∀ net' : NetDev TcpBinding, net'.bindings = s.net.bindings →
        ({ s with net := net' } : Server).Bounded ∧ ({ s with net := net' } : Server).Settled := by
      intro net' he
      constructor
      · refine ⟨h.sent, ?_, h.writes⟩
        show ConsFit net'.bindings
        rw [he]
        exact h.cons
      · show Agatha.Net.Settled net'.bindings s.arpRequests s.io.waiting
        rw [he]
        exact hs
    split
    · rename_i net' hr
      exact (hnet net' (receiveIpv4_bindings hr)).1
    · rename_i p net' hr
      obtain ⟨h1, h2⟩ := hnet net' (receiveIpv4_bindings hr)
      exact handOver_bounded h1 h2 (hecho h8 p net' hr)
  · exact h

theorem frames_bounded {pkts : List (List UInt8)} (h : s.Bounded) (hs : s.Settled) (hslot : s.io.slot = none)
    (hecho : EchoesFit heap w pkts s) : (pkts.foldl (fun s pkt => s.netProcessPkt heap w pkt) s).Bounded := by
  induction pkts generalizing s with
  | nil => exact h
  | cons pkt pkts ih =>
    obtain ⟨hfirst, hrest⟩ := hecho
    obtain ⟨h1, h2⟩ := @netProcessPkt_spec w s pkt heap hs hslot
    exact ih (netProcessPkt_bounded h hs hfirst) h1 h2 hrest

theorem arpRequest_bounded {f : ArpFunc} (h : s.Bounded)
    (hf : ∀ u, f = .udpWrite u → frameLen (8 + u.len) ≤ mtu) : (arpRequest w ip f s).Bounded := by
  unfold arpRequest
  split
  · exact ArpFunc.run_bounded h hf
  · split_ifs
    · exact ⟨h.sent, h.cons, h.writes⟩
    · exact ⟨h.sent, h.cons, h.writes⟩
    · refine ⟨sendArp_fits h.sent, h.cons, ?_⟩
      intro r hr u hu
      rcases List.mem_cons.mp hr with rfl | hr
      · exact hf u hu
      · exact h.writes r hr u hu

theorem withBinding_bounded {f : ℕ → Binding TcpBinding → Server → Server} (h : s.Bounded)
    (hf : ∀ i b, Names pid rq s b → s.net.bindings[i]? = some b → (f i b s).Bounded) :
    (withBinding pid rq s f).Bounded := by
  rcases @withBinding_cases s pid rq f with ⟨-, he⟩ | ⟨i, b, hn, hb, -, he⟩
  · rw [he]
    exact h
  · rw [he]
    exact hf i b hn hb

theorem withCon_bounded {f : Con → Io → Con × Io} (h : s.Bounded) (hi : s.net.bindings[i]? = some b)
    (hf : ∀ c, NamesCon rq b c → c.Fits → (f c s.io).1.Fits ∧ (f c s.io).2.SentFit) :
    (withCon rq i b s f).Bounded := by
  rcases @withCon_cases s i b rq f with ⟨-, he⟩ | ⟨j, c, hn, hj, he⟩
  · rw [he]
    exact h
  · rw [he]
    obtain ⟨hc, hio⟩ := hf c hn (fits_of_get h hi hj)
    exact h.setCon hi hc hio

theorem handleBind_bounded (h : s.Bounded) : (handleBind w pid rq s).Bounded := by
  have hreply : ∀ io : Io, io.sent = s.io.sent → (io.reply pid).SentFit := fun io hio =>
    sentFit_of_eq h.sent (reply_sent.trans hio)
  unfold handleBind
  dsimp only
  split_ifs
  · exact ⟨hreply s.io.next rfl, h.cons, h.writes⟩
  · exact ⟨hreply s.io.next rfl, h.cons, h.writes⟩
  · exact ⟨hreply s.io.next.next rfl, h.cons, h.writes⟩
  · exact ⟨hreply s.io.next.next rfl, h.cons, h.writes⟩
  · refine ⟨hreply s.io.next.next rfl, ?_, h.writes⟩
    intro b hb
    rcases List.mem_cons.mp hb with rfl | hb
    · intro c hc
      cases hc
    · exact h.cons b hb

theorem handleUnbind_bounded (h : s.Bounded) : (handleUnbind pid rq s).Bounded := by
  unfold handleUnbind
  split
  · exact h
  · exact ⟨sentFit_of_eq h.sent reply_sent, fun b hb => h.cons b (List.mem_of_mem_eraseIdx hb), h.writes⟩

theorem ipTcpListen_bounded (h : s.Bounded) (hi : s.net.bindings[i]? = some b) : (ipTcpListen w i b s).Bounded := by
  unfold ipTcpListen
  split_ifs
  · refine ⟨h.sent, consFit_set h.cons ?_, h.writes⟩
    intro c hc
    rcases List.mem_append.mp hc with hc | hc
    · cases Option.mem_some.mp (Option.mem_toList.mp hc)
      intro q hq
      cases hq
    · exact h.cons b (List.mem_of_getElem? hi) c (List.mem_append_right _ hc)
  · exact ⟨h.sent, h.cons, h.writes⟩

theorem ipTcpConnect_bounded (h : s.Bounded) (hi : s.net.bindings[i]? = some b) :
    (ipTcpConnect w rq i b s).Bounded := by
  rcases @ipTcpConnect_cases w s i b rq with ⟨-, he⟩ | ⟨-, c, c', io, hnone, -, hq, he⟩
  · rw [he]
    exact ⟨h.sent, h.cons, h.writes⟩
  · rw [he]
    have hfits : c.Fits := fun q hq => by
      rw [hnone] at hq
      cases hq
    obtain ⟨hc', hio⟩ := hq.toMild.fits (by decide) hfits h.sent
    apply arpRequest_bounded
    · refine ⟨hio, consFit_set h.cons ?_, h.writes⟩
      intro d hd
      have hold := h.cons b (List.mem_of_getElem? hi)
      rcases List.mem_append.mp hd with hd | hd
      · exact hold d (List.mem_append_left _ hd)
      · rcases List.mem_cons.mp hd with rfl | hd
        · exact hc'
        · exact hold d (List.mem_append_right _ hd)
    · intro u hu
      cases hu

theorem ipReadUdpReq_bounded (h : s.Bounded) (hi : s.net.bindings[i]? = some b) : (ipReadUdpReq w rq i b s).Bounded := by
  have hsent := @frameMapAnywhere_sent w s.io
  unfold ipReadUdpReq
  generalize s.io.frameMapAnywhere w = x at hsent
  obtain ⟨_ | cap, io⟩ := x
  · exact ⟨sentFit_of_eq h.sent (replyCap_sent.trans hsent), h.cons, h.writes⟩
  · refine ⟨sentFit_of_eq h.sent (replyCap_sent.trans (unmapAddr_sent.trans hsent)), ?_, h.writes⟩
    have hsame : (ipReadUdp rq.len b).2.tcp = b.tcp := by
      unfold ipReadUdp
      split
      · rfl
      · dsimp only
        split_ifs <;> rfl
    intro d hd
    rcases List.mem_or_eq_of_mem_set hd with hd | rfl
    · exact h.cons d hd
    · rw [hsame]
      exact h.cons b (List.mem_of_getElem? hi)

theorem ipReadTcpReq_fits (hc : c.Fits) (hio : io.SentFit) :
    (ipReadTcpReq w pid rq c io).2.1.Fits ∧ (ipReadTcpReq w pid rq c io).2.2.SentFit := by
  have hsent := @frameMapAnywhere_sent w io
  unfold ipReadTcpReq
  split_ifs
  · exact ⟨hc, sentFit_of_eq hio replyCap_sent⟩
  · generalize io.frameMapAnywhere w = x at hsent
    obtain ⟨_ | cap, io'⟩ := x
    · exact ⟨hc, sentFit_of_eq hio hsent⟩
    · have hq := @readMapped_quiet w io' c rq.len
      dsimp only
      generalize readMapped w rq.len c io' = y at hq
      obtain ⟨data, c', io''⟩ := y
      obtain ⟨hc', hio''⟩ := hq.toMild.fits (by decide) hc (sentFit_of_eq hio hsent)
      exact ⟨hc', sentFit_of_eq hio'' (replyCap_sent.trans unmapAddr_sent)⟩

theorem ipWriteUdp_bounded (h : s.Bounded) (hfit : s.io.Maps w → frameLen (8 + rq.len) ≤ mtu) :
    (ipWriteUdp w rq b s).Bounded := by
  have hsent := @frameMapAnywhere_sent w s.io
  unfold ipWriteUdp
  cases hm : s.io.frameMapAnywhere w with
  | mk o io =>
    rw [hm] at hsent
    have hio : io.SentFit := sentFit_of_eq h.sent hsent
    cases o with
    | none => exact ⟨hio, h.cons, h.writes⟩
    | some cap =>
      dsimp only
      split_ifs
      · apply arpRequest_bounded
        · exact ⟨hio, h.cons, h.writes⟩
        · rintro u ⟨⟩
          exact hfit (maps_iff hm)
      · exact ⟨hio, h.cons, h.writes⟩

theorem ipWriteTcp_fits (hc : c.Fits) (hio : io.SentFit)
    (hfit : c.state = .established → c.rcv.closing = false → frameLen (20 + rq.len) ≤ mtu) :
    (ipWriteTcp w pid rq c io).1.Fits ∧ (ipWriteTcp w pid rq c io).2.SentFit := by
  have hsent := @frameMapAnywhere_sent w io.next
  unfold ipWriteTcp
  split_ifs with hstate halloc
  · exact ⟨hc, sentFit_of_eq hio replyCap_sent⟩
  · exact ⟨hc, hio⟩
  · have hlen : frameLen (20 + rq.len) ≤ mtu := by
      apply hfit
      · by_contra hne
        exact hstate (.inl hne)
      · cases hcl : c.rcv.closing with
        | false => rfl
        | true => exact absurd (.inr hcl) hstate
    generalize io.next.frameMapAnywhere w = x at hsent
    obtain ⟨_ | cap, io'⟩ := x
    · exact ⟨hc, sentFit_of_eq hio hsent⟩
    · have hio' : (io'.unmapAddr w cap).SentFit := sentFit_of_eq hio (unmapAddr_sent.trans hsent)
      have hadd : Quiet rq.len (c, io'.unmapAddr w cap)
          (addPkt w (tcpFlagAck + tcpFlagPsh) rq.len (c, io'.unmapAddr w cap)) := addPkt_quiet rfl (.inr rfl)
      dsimp only
      generalize addPkt w (tcpFlagAck + tcpFlagPsh) rq.len (c, io'.unmapAddr w cap) = y at hadd
      obtain ⟨c1, io1⟩ := y
      obtain ⟨hc1, hio1⟩ := hadd.toMild.fits hlen hc hio'
      have hsend := @sendTcpPkt_quiet w rq.len ({ c1 with nextSeq := (c1.nextSeq + rq.len) % 2 ^ 32 }, io1)
      dsimp only
      generalize sendTcpPkt w ({ c1 with nextSeq := (c1.nextSeq + rq.len) % 2 ^ 32 }, io1) = z at hsend
      obtain ⟨c2, io2⟩ := z
      obtain ⟨hc2, hio2⟩ := hsend.toMild.fits hlen hc1 hio1
      exact ⟨hc2, sentFit_of_eq hio2 replyCap_sent⟩

theorem netHandleMessage_bounded (h : s.Bounded)
    (hfit : rq.type = netWrite → ∀ b, Names pid rq s b →
      (b.proto = protoUdp → s.io.Maps w → frameLen (8 + rq.len) ≤ mtu) ∧
      (b.proto = protoTcp → ∀ c, NamesCon rq b c → c.state = .established → c.rcv.closing = false →
        frameLen (20 + rq.len) ≤ mtu)) : (netHandleMessage w pid rq s).Bounded := by
  unfold netHandleMessage
  split_ifs with t1 t2 t3 t4 t5 t6 t7
  · exact handleBind_bounded h
  · exact handleUnbind_bounded h
  · apply withBinding_bounded h
    intro i b _ hi
    split_ifs
    · exact ipTcpListen_bounded h hi
    · exact h
  · apply withBinding_bounded h
    intro i b _ hi
    split_ifs
    · exact ipTcpConnect_bounded h hi
    · exact h
  · apply withBinding_bounded h
    intro i b _ hi
    split_ifs
    · apply withCon_bounded h hi
      intro c _ hc
      exact ipTcpDisconnect_mild.fits (by decide) hc h.sent
    · exact h
  · apply withBinding_bounded h
    intro i b _ hi
    split_ifs
    · exact ipReadUdpReq_bounded h hi
    · apply withCon_bounded h hi
      intro c _ hc
      exact ipReadTcpReq_fits hc h.sent
    · exact h
  · apply withBinding_bounded h
    intro i b hn hi
    obtain ⟨hudp, htcp⟩ := hfit t7 b hn
    split_ifs with hu ht
    · exact ipWriteUdp_bounded h (hudp hu)
    · apply withCon_bounded h hi
      intro c hcon hc
      exact ipWriteTcp_fits hc h.sent (htcp ht c hcon)
    · exact h
  · exact h

theorem NetRun.settled {cond : World → Server → NetEvent → Prop} (run : NetRun cond s) : s.Settled := by
  induction run with
  | start initial => exact initial.settled
  | @turn s w e run possible hcond ih =>
    by_cases hslot : s.io.slot = none
    · exact (NetEvent.run_spec ih hslot possible).1
    · rw [NetEvent.run_stuck hslot]
      exact ih

theorem NetEvent.run_bounded {e : NetEvent} (h : s.Bounded) (hs : s.Settled) (hfit : e.FitsMtu w s) :
    (e.run w s).Bounded := by
  by_cases hslot : s.io.slot = none
  · cases e with
    | message pid give rq =>
      have hbounded : (s.received pid give).Bounded := ⟨h.sent, h.cons, h.writes⟩
      rw [run_message hslot]
      exact netHandleMessage_bounded hbounded hfit
    | frames heap pkts =>
      rw [run_frames hslot]
      exact frames_bounded h hs hslot (hfit hslot)
  · rw [NetEvent.run_stuck hslot]
    exact h

/-- In runs in which no write or echo is longer than a frame, every frame fits in its slot of the
transmit buffer. -/
theorem frames_fit (run : NetRun (fun w s e => e.FitsMtu w s) s) : ∀ n ∈ s.io.sent, n ≤ mtu := by
  have hbounded : s.Bounded := by
    induction run with
    | start initial =>
      refine ⟨?_, ?_, ?_⟩
      · intro n hn
        rw [initial.sent] at hn
        cases hn
      · intro b hb
        rw [initial.bindings] at hb
        cases hb
      · intro r hr
        rw [initial.requests] at hr
        cases hr
    | turn run possible hcond ih => exact NetEvent.run_bounded ih run.settled hcond
  exact hbounded.sent

def deviceServer : Server :=
  { net := { mac := [82, 84, 0, 18, 52, 86], ipv4 := [192, 168, 10, 34], bindings := [], pkts := [], calls := 0 }
    arpEntries := [], arpRequests := [], nBindingId := 321
    io := { slot := none, waiting := [], replied := [], sent := [], segments := [], calls := 0 } }

def allWork : World := ⟨fun _ => true, fun _ => true, fun _ => true⟩

def udpBind : NetEvent := .message 7 none
  { type := netBind, chanId := 0, proto := protoUdp, portLoc := 80, addrRem := [], portRem := 0, conId := 0, len := 0 }

def udpWrite (len : ℕ) : NetEvent := .message 7 (some (some (.frame 0 4096)))
  { type := netWrite, chanId := 321, proto := 0, portLoc := 0, addrRem := [192, 168, 10, 1], portRem := 80
    conId := 0, len := len }

def arpReply : NetEvent := .frames ⟨fun _ => true, fun _ => []⟩
  [[82, 84, 0, 18, 52, 86, 2, 0, 0, 0, 0, 1, 8, 6, 0, 1, 8, 0, 6, 4, 0, 2, 2, 0, 0, 0, 0, 1, 192, 168, 10, 1,
    82, 84, 0, 18, 52, 86, 192, 168, 10, 34]]

theorem deviceServer_initial : deviceServer.Initial := ⟨rfl, rfl, rfl, rfl, rfl⟩

def udpWritten (len : ℕ) : Server :=
  arpReply.run allWork ((udpWrite len).run allWork (udpBind.run allWork deviceServer))

theorem udpWritten_run {cond : World → Server → NetEvent → Prop} (h1 : cond allWork deviceServer udpBind)
    (h2 : cond allWork (udpBind.run allWork deviceServer) (udpWrite len))
    (h3 : cond allWork ((udpWrite len).run allWork (udpBind.run allWork deviceServer)) arpReply) :
    NetRun cond (udpWritten len) := by
  have hbind : udpBind.Possible deviceServer := fun p hp => by cases hp
  have hwrite : (udpWrite len).Possible (udpBind.run allWork deviceServer) := fun p hp => by cases hp
  exact (((NetRun.start deviceServer_initial).turn hbind h1).turn hwrite h2).turn trivial h3

theorem frames_fit_one : (udpWritten 100).io.sent = [42, 142] ∧ ∀ n ∈ (udpWritten 100).io.sent, n ≤ mtu := by
  refine ⟨by decide +kernel, frames_fit (udpWritten_run ?_ ?_ ?_)⟩
  · intro h
    exact absurd h (by decide)
  · intro _ b _
    exact ⟨fun _ _ => by decide, fun _ c _ _ _ => by decide⟩
  · intro _
    refine ⟨?_, trivial⟩
    intro h
    exact absurd h (by decide)

theorem frames_overrun : NetRun (fun _ _ _ => True) (udpWritten 2000) ∧ (udpWritten 2000).io.sent = [42, 2042] ∧
    ¬ ∀ n ∈ (udpWritten 2000).io.sent, n ≤ mtu := by
  have hsent : (udpWritten 2000).io.sent = [42, 2042] := by decide +kernel
  refine ⟨udpWritten_run trivial trivial trivial, hsent, ?_⟩
  rw [hsent]
  decide

end Frames

end Agatha.Net
