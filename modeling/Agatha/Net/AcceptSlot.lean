import Agatha.Net.Pending

namespace Agatha.Net

def Accepts (pid : ℤ) (ws : List Client) : Prop := ∃ p ∈ ws, p.pid = pid ∧ p.accepts = true

def Server.Settled (s : Server) : Prop := Agatha.Net.Settled s.net.bindings s.arpRequests s.io.waiting

section Slot

variable {w : World} {s s' : Server} {io io' : Io} {pid : ℤ} {ws : List Client} {c c' : Con} {i j : ℕ}
  {b : Binding TcpBinding} {bs bs' : List (Binding TcpBinding)} {rs : List ArpRequest} {p : IpPkt}
  {mac ip pkt : List UInt8} {u : UdpWriteReq} {cap : Cap} {heap : Heap} {rq : NetReq}
  {len : ℕ}

theorem find_of_accepts (h : Accepts pid ws) (hone : waitsOf pid ws ≤ 1) :
    ∃ p, ws.find? (fun p => decide (p.pid = pid)) = some p ∧ p.accepts = true := by
  induction ws with
  | nil =>
    obtain ⟨p, hp, -⟩ := h
    cases hp
  | cons q ws ih =>
    obtain ⟨p, hp, hpid, hacc⟩ := h
    by_cases hq : q.pid = pid
    · refine ⟨q, List.find?_cons_of_pos (by simpa using hq), ?_⟩
      rcases List.mem_cons.mp hp with rfl | hp
      · exact hacc
      · have hpos : 0 < waitsOf pid ws := List.countP_pos_iff.mpr ⟨p, hp, by simpa using hpid⟩
        unfold waitsOf at hone hpos
        rw [List.countP_cons_of_pos (by simpa using hq)] at hone
        omega
    · rw [List.find?_cons_of_neg (by simpa using hq)]
      apply ih
      · rcases List.mem_cons.mp hp with rfl | hp
        · exact absurd hpid hq
        · exact ⟨p, hp, hpid, hacc⟩
      · unfold waitsOf at hone ⊢
        rwa [List.countP_cons_of_neg (by simpa using hq)] at hone

theorem replyCap_waiting : (io.replyCap pid).waiting = io.waiting.eraseP fun p => decide (p.pid = pid) := by
  unfold Io.replyCap
  split
  · rename_i h
    rw [List.find?_eq_none] at h
    exact (List.eraseP_of_forall_not h).symm
  · split_ifs
    · exact reply_waiting
    · exact reply_waiting

theorem replyCap_slot_of_none (h : io.slot = none) : (io.replyCap pid).slot = none := by
  unfold Io.replyCap
  split
  · exact h
  · split_ifs
    · rfl
    · rw [reply_slot, h]

theorem replyCap_slot (h : Accepts pid io.waiting) (hone : waitsOf pid io.waiting ≤ 1) :
    (io.replyCap pid).slot = none := by
  obtain ⟨p, hp, hacc⟩ := find_of_accepts h hone
  unfold Io.replyCap
  rw [hp]
  dsimp only
  rw [if_pos hacc]

@[simp] theorem unmapAddr_waiting : (io.unmapAddr w cap).waiting = io.waiting := by
  unfold Io.unmapAddr
  split
  · split_ifs <;> rfl
  · split_ifs <;> rfl
  · rfl

theorem frameMapAnywhere_none (h : io.frameMapAnywhere w = (none, io')) :
    io'.slot = io.slot ∧ io'.waiting = io.waiting := by
  unfold Io.frameMapAnywhere at h
  split at h
  · cases h
    exact ⟨rfl, rfl⟩
  · split_ifs at h
    · cases h
    · cases h
      exact ⟨rfl, rfl⟩

theorem frameMapAnywhere_some (h : io.frameMapAnywhere w = (some cap, io')) :
    io.slot ≠ none ∧ io'.slot = none ∧ io'.waiting = io.waiting := by
  unfold Io.frameMapAnywhere Io.frameInfo at h
  split at h
  · cases h
  · rename_i hframe
    split_ifs at h
    · cases h
      refine ⟨?_, rfl, rfl⟩
      intro h0
      rw [h0] at hframe
      cases hframe
    · cases h

theorem Settled.congr (h : Settled bs rs ws)
    (he : bs.map (fun b => (b.procId, b.tcp)) = bs'.map fun b => (b.procId, b.tcp)) : Settled bs' rs ws := by
  refine ⟨?_, h.once, ?_, h.accepts⟩
  · intro b hb
    have hmem : (b.procId, b.tcp) ∈ bs.map fun b => (b.procId, b.tcp) := by
      rw [he]
      exact List.mem_map_of_mem hb
    obtain ⟨d, hd, heq⟩ := List.mem_map.mp hmem
    injection heq with _ htcp
    rw [← htcp]
    exact h.proper d hd
  · intro pid
    have hle := h.pending pid
    have hsum : bindingsPending pid bs = bindingsPending pid bs' := by
      have hf := congrArg (List.map fun x : ℤ × TcpBinding => if x.1 = pid then x.2.pending else 0) he
      rw [List.map_map, List.map_map] at hf
      exact congrArg List.sum hf
    unfold pendingOf at hle ⊢
    rwa [← hsum]

theorem Settled.con (h : Settled bs rs ws) (hi : bs[i]? = some b) (hj : b.tcp.cons[j]? = some c)
    (hq : Quiet len (c, io) (c', io')) :
    Settled (bs.set i { b with tcp := b.tcp.setCon j c' }) rs ws := by
  have hstep := BindingStep.set (h.proper b (List.mem_of_getElem? hi)) hj hq.toMild
  have hpend := @pending_set c c' b.tcp j hj
  have hle : c'.waits.toNat ≤ c.waits.toNat := hq.waits_le
  apply h.set hi hstep.proper
  have := h.pending b.procId
  omega

theorem connectTcpArp_spec {bid : ℤ} {con : ℕ} (h : Settled s.net.bindings rs s.io.waiting) :
    Settled (connectTcpArp w bid con mac s).net.bindings rs (connectTcpArp w bid con mac s).io.waiting ∧
      (connectTcpArp w bid con mac s).io.slot = s.io.slot ∧
      (connectTcpArp w bid con mac s).arpRequests = s.arpRequests := by
  have hsame : Settled s.net.bindings rs s.io.waiting ∧ s.io.slot = s.io.slot ∧ s.arpRequests = s.arpRequests :=
    ⟨h, rfl, rfl⟩
  unfold connectTcpArp
  split
  · exact hsame
  · split
    · exact hsame
    · rename_i i _ _ b hi
      split
      · exact hsame
      · split
        · exact hsame
        · rename_i j _ _ c hj
          have hq := @sendTcpPkt_quiet w 0 ({ c with macRem := mac }, s.io)
          have hm : Quiet 0 (c, s.io) ({ c with macRem := mac }, s.io) :=
            ⟨.of_state ⟨rfl, rfl⟩ rfl id, fun q hq => .inl hq, id⟩
          generalize sendTcpPkt w ({ c with macRem := mac }, s.io) = x at hq
          obtain ⟨c', io'⟩ := x
          have hcon := h.con hi hj (hm.trans hq)
          have hw : io'.waiting = s.io.waiting := hq.waiting
          refine ⟨?_, hq.slot, rfl⟩
          show Settled (s.net.bindings.set i { b with tcp := b.tcp.setCon j c' }) rs io'.waiting
          rw [hw]
          exact hcon

theorem udpWriteFinish_spec (hslot : io.slot = none) (hacc : Accepts u.procId io.waiting)
    (hone : waitsOf u.procId io.waiting ≤ 1) : (udpWriteFinish w u io).slot = none ∧
      ((udpWriteFinish w u io).waiting = io.waiting ∨
        (udpWriteFinish w u io).waiting = io.waiting.eraseP fun p => decide (p.pid = u.procId)) := by
  have hw := @sendIpv4Pkt_waiting w io (8 + u.len)
  have hs := @sendIpv4Pkt_slot w io (8 + u.len)
  unfold udpWriteFinish
  generalize io.sendIpv4Pkt w (8 + u.len) = x at hw hs
  obtain ⟨sent, io'⟩ := x
  dsimp only at hw hs ⊢
  split_ifs
  · constructor
    · apply replyCap_slot
      · rw [unmapAddr_waiting, hw]
        exact hacc
      · rw [unmapAddr_waiting, hw]
        exact hone
    · right
      rw [replyCap_waiting, unmapAddr_waiting, hw]
  · exact ⟨hs.trans hslot, .inl hw⟩

theorem ArpFunc.run_spec {r : ArpRequest} (h : Settled s.net.bindings (r :: rs) s.io.waiting)
    (hslot : s.io.slot = none) :
    Settled (r.func.run w mac s).net.bindings rs (r.func.run w mac s).io.waiting ∧
      (r.func.run w mac s).io.slot = none ∧ (r.func.run w mac s).arpRequests = s.arpRequests := by
  cases hf : r.func with
  | connect bid con =>
    obtain ⟨h1, h2, h3⟩ := @connectTcpArp_spec w s rs mac bid con h.tail
    exact ⟨h1, h2.trans hslot, h3⟩
  | udpWrite u =>
    have h0 := h.written hf
    obtain ⟨h1, h2 | h2⟩ := @udpWriteFinish_spec w s.io u hslot (h.accepts r List.mem_cons_self u hf) (h.once _)
    · refine ⟨?_, h1, rfl⟩
      show Settled s.net.bindings rs (udpWriteFinish w u s.io).waiting
      rw [h2]
      exact h.tail
    · refine ⟨?_, h1, rfl⟩
      show Settled s.net.bindings rs (udpWriteFinish w u s.io).waiting
      rw [h2]
      exact h.tail.reply h0

theorem runRequests_spec {todo : List ArpRequest} (h : Settled s.net.bindings (todo ++ s.arpRequests) s.io.waiting)
    (hslot : s.io.slot = none) :
    (runRequests w mac todo s).Settled ∧ (runRequests w mac todo s).io.slot = none := by
  induction todo generalizing s with
  | nil => exact ⟨h, hslot⟩
  | cons r next ih =>
    obtain ⟨h1, h2, h3⟩ := @ArpFunc.run_spec w s (next ++ s.arpRequests) mac r h hslot
    unfold runRequests
    apply ih
    · rw [h3]
      exact h1
    · exact h2

theorem arpAddEntry_spec (h : s.Settled) (hslot : s.io.slot = none) :
    (arpAddEntry w ip mac s).Settled ∧ (arpAddEntry w ip mac s).io.slot = none := by
  have hperm : Settled s.net.bindings
      (s.arpRequests.filter (fun r => decide (r.ip = ip)) ++ s.arpRequests.filter fun r => decide (r.ip ≠ ip))
      s.io.waiting := by
    apply h.perm
    have := List.filter_append_perm (fun r : ArpRequest => decide (r.ip = ip)) s.arpRequests
    simpa using this.symm
  unfold arpAddEntry
  dsimp only
  split
  · exact runRequests_spec hperm hslot
  · split_ifs
    · exact runRequests_spec hperm hslot
    · exact ⟨h, hslot⟩

theorem handleArp_spec (h : s.Settled) (hslot : s.io.slot = none) :
    (handleArp w pkt s).Settled ∧ (handleArp w pkt s).io.slot = none := by
  unfold handleArp handleArpRequest
  dsimp only
  split_ifs
  · exact ⟨h, hslot⟩
  · exact ⟨h, hslot⟩
  · exact ⟨h, hslot⟩
  · exact arpAddEntry_spec h hslot
  · exact ⟨h, hslot⟩
  · exact ⟨h, hslot⟩
  · exact arpAddEntry_spec h hslot
  · exact ⟨h, hslot⟩
  · exact ⟨h, hslot⟩

theorem handleTcp_spec (h : s.Settled) (hslot : s.io.slot = none) :
    (handleTcp w p s).Settled ∧ (handleTcp w p s).io.slot = none := by
  unfold handleTcp
  split
  · exact ⟨h, hslot⟩
  · split
    · exact ⟨h, hslot⟩
    · rename_i i _ _ b hi
      obtain ⟨hstep, hcase⟩ := @tcpInput_spec w s.io b.procId p (s.arpMatchIp p.srcIpv4) 0 b.tcp
        (h.proper b (List.mem_of_getElem? hi))
      generalize tcpInput w (s.arpMatchIp p.srcIpv4) p b.procId b.tcp s.io = x at hstep hcase
      obtain ⟨t, io⟩ := x
      dsimp only at hstep hcase ⊢
      refine ⟨?_, hstep.slot.trans hslot⟩
      show Settled (s.net.bindings.set i { b with tcp := t }) s.arpRequests io.waiting
      rcases hcase with ⟨hw, hle, -⟩ | ⟨hw, hlt⟩
      · rw [hw]
        apply h.set hi hstep.proper
        have := h.pending b.procId
        omega
      · rw [hw, reply_waiting]
        exact h.told hi hstep.proper hlt.le

theorem receiveIpv4_bindings {τ : Type} {net net' : NetDev τ} {o : Option IpPkt}
    (h : receiveIpv4 heap pkt net = (o, net')) : net'.bindings = net.bindings := by
  unfold receiveIpv4 at h
  split_ifs at h
  · cases h
    rfl
  · cases h
    rfl
  · cases h
    rfl
  · cases h
    rfl
  · cases h
    rfl
  · dsimp only at h
    have hget : ∀ o net', getWaitingIpPkt heap (ipSrc pkt) (ipDst pkt) (ipProtocol pkt) (ipIdent pkt)
        net.next.next = (o, net') → net'.bindings = net.bindings := by
      intro o net' hg
      unfold getWaitingIpPkt at hg
      split at hg
      · cases hg
        rfl
      · split_ifs at hg
        · cases hg
          rfl
        · cases hg
          rfl
    split at h
    · rename_i net1 hg
      cases h
      exact hget _ _ hg
    · rename_i i net1 hg
      split at h
      · cases h
        exact hget _ _ hg
      · have hb : net1.bindings = net.bindings := hget _ _ hg
        split_ifs at h
        · cases h
          exact hb
        · cases h
          exact hb
  · cases h
    rfl
  · cases h
    rfl
  · cases h
    rfl

theorem map_modify_of_eq {α β : Type} {f : α → β} {g : α → α} (hg : ∀ a, f (g a) = f a) (l : List α) (i : ℕ) :
    (l.modify i g).map f = l.map f := by
  induction l generalizing i with
  | nil => cases i <;> rfl
  | cons a l ih =>
    cases i with
    | zero =>
      rw [List.modify_zero_cons, List.map_cons, List.map_cons, hg]
    | succ i =>
      rw [List.modify_succ_cons, List.map_cons, List.map_cons, ih]

theorem handleUdp_clients {net : NetDev TcpBinding} : (handleUdp p net).bindings.map (fun b => (b.procId, b.tcp)) =
    net.bindings.map fun b => (b.procId, b.tcp) := by
  unfold handleUdp
  split_ifs
  · rfl
  · split
    · rfl
    · apply map_modify_of_eq
      intro b
      rfl

theorem handleUdp_ids {net : NetDev TcpBinding} : (handleUdp p net).bindings.map (fun b => (b.id, b.tcp)) =
    net.bindings.map fun b => (b.id, b.tcp) := by
  unfold handleUdp
  split_ifs
  · rfl
  · split
    · rfl
    · apply map_modify_of_eq
      intro b
      rfl

theorem handOver_spec (h : s.Settled) (hslot : s.io.slot = none) :
    (s.handOver w p).Settled ∧ (s.handOver w p).io.slot = none := by
  unfold Server.handOver
  split_ifs
  · unfold handleIcmp
    split_ifs
    · split
      · exact ⟨h, hslot⟩
      · constructor
        · show Agatha.Net.Settled _ _ (s.io.sendIpv4Pkt w (8 + lenSub p.len 8)).2.waiting
          rw [sendIpv4Pkt_waiting]
          exact h
        · exact sendIpv4Pkt_slot.trans hslot
    · exact ⟨h, hslot⟩
  · exact handleTcp_spec h hslot
  · refine ⟨?_, hslot⟩
    exact Settled.congr h handleUdp_clients.symm
  · exact ⟨h, hslot⟩

theorem netProcessPkt_spec (h : s.Settled) (hslot : s.io.slot = none) :
    (s.netProcessPkt heap w pkt).Settled ∧ (s.netProcessPkt heap w pkt).io.slot = none := by
  unfold Server.netProcessPkt
  split_ifs
  · exact handleArp_spec h hslot
  · have hnet : ∀ net' : NetDev TcpBinding, net'.bindings = s.net.bindings → ({ s with net := net' } : Server).Settled := by
      intro net' he
      show Agatha.Net.Settled net'.bindings s.arpRequests s.io.waiting
      rw [he]
      exact h
    split
    · rename_i net' hr
      exact ⟨hnet net' (receiveIpv4_bindings hr), hslot⟩
    · rename_i p net' hr
      exact handOver_spec (hnet net' (receiveIpv4_bindings hr)) hslot
  · exact ⟨h, hslot⟩

theorem frames_spec {pkts : List (List UInt8)} (h : s.Settled) (hslot : s.io.slot = none) :
    (pkts.foldl (fun s pkt => s.netProcessPkt heap w pkt) s).Settled ∧
      (pkts.foldl (fun s pkt => s.netProcessPkt heap w pkt) s).io.slot = none := by
  induction pkts generalizing s with
  | nil => exact ⟨h, hslot⟩
  | cons pkt pkts ih =>
    obtain ⟨h1, h2⟩ := @netProcessPkt_spec w s pkt heap h hslot
    exact ih h1 h2

structure Serving (pid : ℤ) (s : Server) : Prop where
  settled : s.Settled
  nothing : pendingOf pid s.net.bindings s.arpRequests = 0
  waits : waitsOf pid s.io.waiting = 1
  accepts : s.io.slot = none ∨ Accepts pid s.io.waiting

theorem findBinding_procId (hi : findBinding pid rq.chanId s = some i) (hb : s.net.bindings[i]? = some b) :
    b.procId = pid := by
  obtain ⟨hlt, hd, -⟩ := List.findIdx?_eq_some_iff_getElem.mp hi
  obtain ⟨_, rfl⟩ := List.getElem?_eq_some_iff.mp hb
  exact (of_decide_eq_true hd).1

def Names (pid : ℤ) (rq : NetReq) (s : Server) (b : Binding TcpBinding) : Prop :=
  ∃ i, findBinding pid rq.chanId s = some i ∧ s.net.bindings[i]? = some b

def NamesCon (rq : NetReq) (b : Binding TcpBinding) (c : Con) : Prop :=
  ∃ j, b.tcp.cons.findIdx? (fun c => decide (c.id = rq.conId)) = some j ∧ b.tcp.cons[j]? = some c

def Io.Maps (w : World) (io : Io) : Prop := (io.frameMapAnywhere w).1 ≠ none

def GivesBack (w : World) (pid : ℤ) (rq : NetReq) (s : Server) : Prop :=
  (rq.type = netRead ∧ ∃ b, Names pid rq s b ∧ (b.proto = protoUdp ∨
      b.proto = protoTcp ∧ ∃ c, NamesCon rq b c ∧ (c.state ≠ .established ∨ s.io.Maps w))) ∨
  (rq.type = netWrite ∧ ∃ b, Names pid rq s b ∧ (b.proto = protoUdp ∧ s.io.Maps w ∨
      b.proto = protoTcp ∧ ∃ c, NamesCon rq b c ∧ ((c.state ≠ .established ∨ c.rcv.closing = true) ∨
        w.alloc s.io.calls = true ∧ s.io.next.Maps w)))

theorem Names.unique {b' : Binding TcpBinding} (h : Names pid rq s b) (h' : Names pid rq s b') : b = b' := by
  obtain ⟨i, hi, hb⟩ := h
  obtain ⟨i', hi', hb'⟩ := h'
  cases hi.symm.trans hi'
  exact Option.some.inj (hb.symm.trans hb')

theorem NamesCon.unique (h : NamesCon rq b c) (h' : NamesCon rq b c') : c = c' := by
  obtain ⟨j, hj, hc⟩ := h
  obtain ⟨j', hj', hc'⟩ := h'
  cases hj.symm.trans hj'
  exact Option.some.inj (hc.symm.trans hc')

theorem withBinding_cases (f : ℕ → Binding TcpBinding → Server → Server) :
    ((∀ b, ¬ Names pid rq s b) ∧ withBinding pid rq s f = s) ∨
      ∃ i b, Names pid rq s b ∧ s.net.bindings[i]? = some b ∧ b.procId = pid ∧
        withBinding pid rq s f = f i b s := by
  unfold withBinding
  cases hi : findBinding pid rq.chanId s with
  | none =>
    refine .inl ⟨?_, rfl⟩
    rintro b ⟨i, hi', -⟩
    rw [hi] at hi'
    cases hi'
  | some i =>
    dsimp only
    cases hb : s.net.bindings[i]? with
    | none =>
      refine .inl ⟨?_, rfl⟩
      rintro b ⟨i', hi', hb'⟩
      cases hi.symm.trans hi'
      rw [hb] at hb'
      cases hb'
    | some b => exact .inr ⟨i, b, ⟨i, hi, hb⟩, hb, findBinding_procId hi hb, rfl⟩

theorem withCon_cases (f : Con → Io → Con × Io) :
    ((∀ c, ¬ NamesCon rq b c) ∧ withCon rq i b s f = s) ∨
      ∃ j c, NamesCon rq b c ∧ b.tcp.cons[j]? = some c ∧
        withCon rq i b s f = s.setTcp i b (b.tcp.setCon j (f c s.io).1) (f c s.io).2 := by
  unfold withCon
  cases hj : b.tcp.cons.findIdx? fun c => decide (c.id = rq.conId) with
  | none =>
    refine .inl ⟨?_, rfl⟩
    rintro c ⟨j, hj', -⟩
    rw [hj] at hj'
    cases hj'
  | some j =>
    dsimp only
    cases hc : b.tcp.cons[j]? with
    | none =>
      refine .inl ⟨?_, rfl⟩
      rintro c ⟨j', hj', hc'⟩
      cases hj.symm.trans hj'
      rw [hc] at hc'
      cases hc'
    | some c => exact .inr ⟨j, c, ⟨j, hj, hc⟩, hc, rfl⟩

theorem Serving.reply (h : Serving pid s) :
    Agatha.Net.Settled s.net.bindings s.arpRequests (s.io.reply pid).waiting := by
  rw [reply_waiting]
  exact h.settled.reply h.nothing

theorem handleBind_spec (h : Serving pid s) :
    (handleBind w pid rq s).Settled ∧ (handleBind w pid rq s).io.slot = s.io.slot := by
  have hreply := h.reply
  rw [reply_waiting] at hreply
  have hnext : ∀ io : Io, io.waiting = s.io.waiting →
      Agatha.Net.Settled s.net.bindings s.arpRequests (io.reply pid).waiting := by
    intro io hio
    rw [reply_waiting, hio]
    exact hreply
  unfold handleBind
  dsimp only
  split_ifs
  · exact ⟨hnext _ rfl, reply_slot⟩
  · exact ⟨hnext s.io.next rfl, reply_slot⟩
  · exact ⟨hnext s.io.next.next rfl, reply_slot⟩
  · exact ⟨hnext s.io.next.next rfl, reply_slot⟩
  · exact ⟨(hnext s.io.next.next rfl).bind rfl, reply_slot⟩

theorem handleUnbind_spec (h : Serving pid s) :
    (handleUnbind pid rq s).Settled ∧ (handleUnbind pid rq s).io.slot = s.io.slot := by
  unfold handleUnbind
  split
  · exact ⟨h.settled, rfl⟩
  · exact ⟨h.reply.unbind _, reply_slot⟩

theorem Serving.wait {t : TcpBinding} (h : Serving pid s) (hi : s.net.bindings[i]? = some b) (hpid : b.procId = pid)
    (ht : t.Proper) (hle : t.pending ≤ b.tcp.pending + 1) (hw : io.waiting = s.io.waiting) :
    (s.setTcp i b t io).Settled := by
  show Agatha.Net.Settled (s.net.bindings.set i { b with tcp := t }) s.arpRequests io.waiting
  rw [hw]
  apply h.settled.set hi ht
  rw [hpid, h.nothing, h.waits]
  omega

theorem handleTcpListen_spec (h : Serving pid s) :
    (handleTcpListen w pid rq s).Settled ∧ (handleTcpListen w pid rq s).io.slot = s.io.slot := by
  unfold handleTcpListen
  rcases @withBinding_cases s pid rq (fun i b s => if b.proto = protoTcp then ipTcpListen w i b s else s) with
    ⟨-, he⟩ | ⟨i, b, -, hb, hpid, he⟩
  · rw [he]
    exact ⟨h.settled, rfl⟩
  · rw [he]
    split_ifs
    · unfold ipTcpListen
      split_ifs
      · have hproper := h.settled.proper b (List.mem_of_getElem? hb)
        refine ⟨h.wait hb hpid ⟨?_, ?_⟩ ?_ rfl, rfl⟩
        · intro c hc
          rcases List.mem_append.mp hc with hc | hc
          · cases Option.mem_some.mp (Option.mem_toList.mp hc)
            intro _ q hq
            cases hq
          · exact hproper.early c (List.mem_append_right _ hc)
        · rintro c ⟨⟩
          rfl
        · unfold TcpBinding.pending
          simp
      · exact ⟨h.settled, rfl⟩
    · exact ⟨h.settled, rfl⟩

theorem arpRequest_connect {bid : ℤ} {con : ℕ} (h : s.Settled) :
    (arpRequest w ip (.connect bid con) s).Settled ∧
      (arpRequest w ip (.connect bid con) s).io.slot = s.io.slot := by
  unfold arpRequest
  split
  · rename_i mac _
    obtain ⟨h1, h2, h3⟩ := @connectTcpArp_spec w s s.arpRequests mac bid con h
    refine ⟨?_, h2⟩
    show Agatha.Net.Settled _ (connectTcpArp w bid con mac s).arpRequests _
    rw [h3]
    exact h1
  · split_ifs
    · exact ⟨h, rfl⟩
    · exact ⟨h, rfl⟩
    · exact ⟨Settled.cons_connect h, rfl⟩

theorem ipTcpConnect_cases : w.alloc s.io.calls = false ∧ ipTcpConnect w rq i b s = { s with io := s.io.next } ∨
    w.alloc s.io.calls = true ∧ ∃ c c' io, c.sending = [] ∧ c'.waits = true ∧ Quiet 0 (c, s.io.next) (c', io) ∧
      ipTcpConnect w rq i b s = arpRequest w rq.addrRem (.connect b.id c'.id)
        (s.setTcp i b { b.tcp with cons := c' :: b.tcp.cons, nextConId := b.tcp.nextConId + 1 } io) := by
  unfold ipTcpConnect
  split_ifs with hal
  · exact .inr ⟨hal, _, _, _, rfl, addPkt_waits rfl, addPkt_quiet rfl (.inl rfl), rfl⟩
  · exact .inl ⟨Bool.eq_false_of_not_eq_true hal, rfl⟩

theorem handleTcpConnect_spec (h : Serving pid s) :
    (handleTcpConnect w pid rq s).Settled ∧ (handleTcpConnect w pid rq s).io.slot = s.io.slot := by
  unfold handleTcpConnect
  rcases @withBinding_cases s pid rq (fun i b s => if b.proto = protoTcp then ipTcpConnect w rq i b s else s) with
    ⟨-, he⟩ | ⟨i, b, -, hb, hpid, he⟩
  · rw [he]
    exact ⟨h.settled, rfl⟩
  · rw [he]
    split_ifs
    · rcases @ipTcpConnect_cases w s i b rq with ⟨-, he⟩ | ⟨-, c, c', io, hnone, -, hq, he⟩
      · rw [he]
        exact ⟨h.settled, rfl⟩
      · rw [he]
        have hproper := h.settled.proper b (List.mem_of_getElem? hb)
        have hfin : ∀ q ∈ c'.sending, q.fin = false := by
          intro q hmem
          rcases hq.fins q hmem with hmem | hf
          · rw [hnone] at hmem
            cases hmem
          · exact hf
        have hset : (s.setTcp i b { b.tcp with cons := c' :: b.tcp.cons, nextConId := b.tcp.nextConId + 1 } io).Settled := by
          apply h.wait hb hpid _ _ hq.waiting
          · refine ⟨?_, hproper.listens⟩
            intro d hd
            rcases List.mem_append.mp hd with hd | hd
            · exact hproper.early d (List.mem_append_left _ hd)
            · rcases List.mem_cons.mp hd with rfl | hd
              · exact fun _ => hfin
              · exact hproper.early d (List.mem_append_right _ hd)
          · unfold TcpBinding.pending
            dsimp only
            rw [List.countP_cons]
            split_ifs <;> omega
        obtain ⟨h1, h2⟩ := @arpRequest_connect w _ rq.addrRem b.id c'.id hset
        exact ⟨h1, h2.trans hq.slot⟩
    · exact ⟨h.settled, rfl⟩

theorem ipTcpDisconnect_mild : Mild 0 (c, io) (ipTcpDisconnect w c io) := by
  unfold ipTcpDisconnect
  dsimp only
  set c1 : Con := { c with rcv := { c.rcv with closing := true } }
  have hc : Mild 0 (c, io) (c1, io) := .of_state ⟨rfl, rfl⟩ rfl id
  split_ifs with h1 h2
  · exact .refl _
  · have hlate : c1.state.early = true → hasFlag (tcpFlagAck + tcpFlagFin) tcpFlagFin = false := by
      intro he
      rcases h2 with h2 | h2
      · rw [h2] at he
        cases he
      · rw [h2] at he
        cases he
    exact (hc.trans (addPkt_mild hlate (.inl rfl))).trans (sendTcpPkt_quiet _).toMild
  · exact hc.trans (sendTcpPkt_quiet _).toMild

theorem handleTcpDisconnect_spec (h : Serving pid s) :
    (handleTcpDisconnect w pid rq s).Settled ∧ (handleTcpDisconnect w pid rq s).io.slot = s.io.slot := by
  unfold handleTcpDisconnect
  rcases @withBinding_cases s pid rq
      (fun i b s => if b.proto = protoTcp then withCon rq i b s (ipTcpDisconnect w) else s) with
    ⟨-, he⟩ | ⟨i, b, -, hb, hpid, he⟩
  · rw [he]
    exact ⟨h.settled, rfl⟩
  · rw [he]
    split_ifs
    · rcases @withCon_cases s i b rq (ipTcpDisconnect w) with ⟨-, he⟩ | ⟨j, c, -, hc, he⟩
      · rw [he]
        exact ⟨h.settled, rfl⟩
      · rw [he]
        have hm := @ipTcpDisconnect_mild w s.io c
        generalize ipTcpDisconnect w c s.io = x at hm
        obtain ⟨c', io⟩ := x
        have hstep := BindingStep.set (h.settled.proper b (List.mem_of_getElem? hb)) hc hm
        have hpend := @pending_set c c' b.tcp j hc
        have hone : c'.waits.toNat ≤ 1 := Bool.toNat_le c'.waits
        have hle : (b.tcp.setCon j c').pending ≤ b.tcp.pending + 1 := by
          omega
        exact ⟨h.wait hb hpid hstep.proper hle hm.waiting, hm.slot⟩
    · exact ⟨h.settled, rfl⟩

theorem Serving.answer {len : ℕ} {io₀ io₁ : Io} (h : Serving pid s) (hi : s.net.bindings[i]? = some b)
    (hpid : b.procId = pid) (hj : b.tcp.cons[j]? = some c) (hq : Quiet len (c, io₀) (c', io₁))
    (hw : io.waiting = s.io.waiting ∨ io.waiting = s.io.waiting.eraseP fun p => decide (p.pid = pid)) :
    (s.setTcp i b (b.tcp.setCon j c') io).Settled := by
  have hcon := Settled.con h.settled hi hj hq
  show Agatha.Net.Settled (s.net.bindings.set i { b with tcp := b.tcp.setCon j c' }) s.arpRequests io.waiting
  rcases hw with hw | hw
  · rw [hw]
    exact hcon
  · rw [hw]
    apply hcon.reply
    have hnum := @bindingsPending_set s.net.bindings b (b.tcp.setCon j c') i hi pid
    have hpend := @pending_set c c' b.tcp j hj
    have hle : c'.waits.toNat ≤ c.waits.toNat := hq.waits_le
    have h0 := h.nothing
    rw [if_pos hpid, if_pos hpid] at hnum
    unfold pendingOf at h0 ⊢
    omega

theorem readMapped_quiet {n : ℕ} : Quiet 0 (c, io) (readMapped w n c io).2 := by
  unfold readMapped
  generalize readLoop c.rcv.recvWait c.rcv.offsetIntoWaiting c.rcv.ack n = r
  obtain ⟨data, recvWait, o, contAck⟩ := r
  dsimp only
  have hrcv : ∀ rcv, Quiet 0 (c, io) ({ c with rcv := rcv }, io) := fun rcv =>
    ⟨.of_state ⟨rfl, rfl⟩ rfl id, fun q hq => .inl hq, id⟩
  have hfirst : Quiet 0 (c, io) (if c.rcv.ack < contAck then
      ackAndSend w ({ c with rcv := { c.rcv with recvWait := recvWait, offsetIntoWaiting := o, ack := contAck } }, io)
    else ({ c with rcv := { c.rcv with recvWait := recvWait, offsetIntoWaiting := o } }, io)) := by
    split_ifs
    · exact (hrcv _).trans (ackAndSend_quiet _)
    · exact hrcv _
  generalize (if c.rcv.ack < contAck then
      ackAndSend w ({ c with rcv := { c.rcv with recvWait := recvWait, offsetIntoWaiting := o, ack := contAck } }, io)
    else ({ c with rcv := { c.rcv with recvWait := recvWait, offsetIntoWaiting := o } }, io)) = x at hfirst
  obtain ⟨c1, io1⟩ := x
  dsimp only
  split_ifs
  · have hclose : Quiet 0 (c1, io1) ({ c1.bumpAck with state := .closeWait }, io1) :=
      .of_state ⟨rfl, rfl⟩ rfl (fun h => by cases h) rfl
    exact (hfirst.trans hclose).trans (ackAndSend_quiet _)
  · exact hfirst

theorem maps_iff (h : io.frameMapAnywhere w = (some cap, io')) : io.Maps w := by
  unfold Io.Maps
  rw [h]
  exact Option.some_ne_none cap

theorem not_maps (h : io.frameMapAnywhere w = (none, io')) : ¬ io.Maps w := by
  unfold Io.Maps
  rw [h]
  exact fun hne => hne rfl

theorem Serving.replyCap_slot (h : Serving pid s) (hw : io.waiting = s.io.waiting)
    (hs : io.slot = none ∨ s.io.slot ≠ none) : (io.replyCap pid).slot = none := by
  rcases hs with hs | hs
  · exact replyCap_slot_of_none hs
  · apply Agatha.Net.replyCap_slot
    · rw [hw]
      exact h.accepts.resolve_left hs
    · rw [hw, h.waits]

@[simp] theorem unmapAddr_segments : (io.unmapAddr w cap).segments = io.segments := by
  unfold Io.unmapAddr
  split
  · split_ifs <;> rfl
  · split_ifs <;> rfl
  · rfl

@[simp] theorem replyCap_segments : (io.replyCap pid).segments = io.segments := by
  unfold Io.replyCap
  split
  · rfl
  · split_ifs
    · exact reply_segments
    · exact reply_segments

theorem frameMapAnywhere_segments {o : Option Cap} (h : io.frameMapAnywhere w = (o, io')) :
    io'.segments = io.segments := by
  unfold Io.frameMapAnywhere at h
  split at h
  · cases h
    rfl
  · split_ifs at h
    · cases h
      rfl
    · cases h
      rfl

structure Answers (pid : ℤ) (s : Server) (c : Con) (x : Con × Io) (cond : Prop) : Prop where
  quiet : ∃ len io₀ io₁, Quiet len (c, io₀) (x.1, io₁)
  waiting : ¬ cond ∧ x.2.waiting = s.io.waiting ∨
    cond ∧ x.2.waiting = s.io.waiting.eraseP fun p => decide (p.pid = pid)
  slot : x.2.slot = none ↔ s.io.slot = none ∨ cond
  segments : ∀ f ∈ s.io.segments, f ∈ x.2.segments

theorem Serving.refuse {cond : Prop} (h : Serving pid s) (hcond : cond) :
    Answers pid s c (c, s.io.replyCap pid) cond := by
  have hslot : (s.io.replyCap pid).slot = none := by
    apply h.replyCap_slot rfl
    by_cases h0 : s.io.slot = none
    · exact .inl h0
    · exact .inr h0
  refine ⟨⟨0, s.io, s.io, .refl _⟩, .inr ⟨hcond, replyCap_waiting⟩, ⟨fun _ => .inr hcond, fun _ => hslot⟩, ?_⟩
  intro f hf
  dsimp only
  rwa [replyCap_segments]

theorem Serving.drop {cond : Prop} (hcond : ¬ cond) (hs : io.slot = s.io.slot) (hw : io.waiting = s.io.waiting)
    (hsegs : io.segments = s.io.segments) : Answers pid s c (c, io) cond := by
  refine ⟨⟨0, s.io, s.io, .refl _⟩, .inl ⟨hcond, hw⟩, ?_, fun f hf => hsegs ▸ hf⟩
  dsimp only
  rw [hs]
  tauto

theorem ipReadTcpReq_spec (h : Serving pid s) : Answers pid s c (ipReadTcpReq w pid rq c s.io).2
    (c.state ≠ .established ∨ s.io.Maps w) := by
  unfold ipReadTcpReq
  split_ifs with hstate
  · exact h.refuse (.inl hstate)
  · split
    · rename_i io hm
      obtain ⟨hs, hw⟩ := frameMapAnywhere_none hm
      have hnot := not_maps hm
      exact Serving.drop (by tauto) hs hw (frameMapAnywhere_segments hm)
    · rename_i cap io hm
      obtain ⟨hne, hs, hw⟩ := frameMapAnywhere_some hm
      have hsegs := frameMapAnywhere_segments hm
      have hq := @readMapped_quiet w io c rq.len
      generalize readMapped w rq.len c io = x at hq
      obtain ⟨data, c', io'⟩ := x
      have hw' : (io'.unmapAddr w cap).waiting = s.io.waiting := by
        rw [unmapAddr_waiting]
        exact hq.waiting.trans hw
      refine ⟨⟨0, io, io', hq⟩, .inr ⟨.inr (maps_iff hm), ?_⟩, ?_, ?_⟩
      · dsimp only
        rw [replyCap_waiting, hw']
      · have hslot : ((io'.unmapAddr w cap).replyCap pid).slot = none := h.replyCap_slot hw' (.inr hne)
        exact ⟨fun _ => .inr (.inr (maps_iff hm)), fun _ => hslot⟩
      · intro f hf
        dsimp only
        rw [replyCap_segments, unmapAddr_segments]
        exact hq.segments f (hsegs ▸ hf)

theorem ipWriteTcp_spec (h : Serving pid s) : Answers pid s c (ipWriteTcp w pid rq c s.io)
    ((c.state ≠ .established ∨ c.rcv.closing = true) ∨ w.alloc s.io.calls = true ∧ s.io.next.Maps w) := by
  unfold ipWriteTcp
  split_ifs with hstate halloc
  · exact h.refuse (.inl hstate)
  · refine @Serving.drop s s.io.next pid c _ ?_ rfl rfl rfl
    rintro (hst | ⟨hal, -⟩)
    · exact hstate hst
    · rw [halloc] at hal
      cases hal
  · split
    · rename_i io hm
      obtain ⟨hs, hw⟩ := frameMapAnywhere_none hm
      have hnot := not_maps hm
      have hsegs : io.segments = s.io.next.segments := frameMapAnywhere_segments hm
      exact Serving.drop (by tauto) hs hw hsegs
    · rename_i cap io hm
      obtain ⟨hne, hs, hw⟩ := frameMapAnywhere_some hm
      have hsegs : io.segments = s.io.next.segments := frameMapAnywhere_segments hm
      have hadd : Quiet rq.len (c, io.unmapAddr w cap)
          (addPkt w (tcpFlagAck + tcpFlagPsh) rq.len (c, io.unmapAddr w cap)) := addPkt_quiet rfl (.inr rfl)
      generalize addPkt w (tcpFlagAck + tcpFlagPsh) rq.len (c, io.unmapAddr w cap) = x at hadd
      obtain ⟨c1, io1⟩ := x
      have hseq : Quiet rq.len (c1, io1) ({ c1 with nextSeq := (c1.nextSeq + rq.len) % 2 ^ 32 }, io1) :=
        ⟨.of_state ⟨rfl, rfl⟩ rfl id, fun q hq => .inl hq, id⟩
      have hq := (hadd.trans hseq).trans
        (@sendTcpPkt_quiet w rq.len ({ c1 with nextSeq := (c1.nextSeq + rq.len) % 2 ^ 32 }, io1))
      dsimp only
      generalize sendTcpPkt w ({ c1 with nextSeq := (c1.nextSeq + rq.len) % 2 ^ 32 }, io1) = y at hq
      obtain ⟨c2, io2⟩ := y
      have hw' : io2.waiting = s.io.waiting := by
        have h2 : io2.waiting = (io.unmapAddr w cap).waiting := hq.waiting
        rw [h2, unmapAddr_waiting]
        exact hw
      have hal : w.alloc s.io.calls = true := by simpa using halloc
      refine ⟨⟨rq.len, _, io2, hq⟩, .inr ⟨.inr ⟨hal, maps_iff hm⟩, ?_⟩, ?_, ?_⟩
      · dsimp only
        rw [replyCap_waiting, hw']
      · have hslot : (io2.replyCap pid).slot = none := h.replyCap_slot hw' (.inr hne)
        exact ⟨fun _ => .inr (.inr ⟨hal, maps_iff hm⟩), fun _ => hslot⟩
      · intro f hf
        dsimp only
        rw [replyCap_segments]
        apply hq.segments
        dsimp only
        rw [unmapAddr_segments, hsegs]
        exact hf

theorem withCon_spec {f : Con → Io → Con × Io} {cond : Con → Prop} (h : Serving pid s)
    (hi : s.net.bindings[i]? = some b) (hpid : b.procId = pid)
    (hf : ∀ c, Answers pid s c (f c s.io) (cond c)) :
    (withCon rq i b s f).Settled ∧
      ((withCon rq i b s f).io.slot = none ↔ s.io.slot = none ∨ ∃ c, NamesCon rq b c ∧ cond c) := by
  rcases @withCon_cases s i b rq f with ⟨hno, he⟩ | ⟨j, c, hc, hj, he⟩
  · rw [he]
    refine ⟨h.settled, ⟨.inl, ?_⟩⟩
    rintro (h0 | ⟨c, hc, -⟩)
    · exact h0
    · exact absurd hc (hno c)
  · rw [he]
    obtain ⟨⟨len, io₀, io₁, hq⟩, hw, hslot, -⟩ := hf c
    refine ⟨h.answer hi hpid hj hq (hw.imp And.right And.right), ?_⟩
    show (f c s.io).2.slot = none ↔ _
    rw [hslot]
    constructor
    · exact Or.imp_right fun hcond => ⟨c, hc, hcond⟩
    · apply Or.imp_right
      rintro ⟨d, hd, hcond⟩
      rwa [hc.unique hd]

theorem ipReadUdpReq_spec (h : Serving pid s) (hi : s.net.bindings[i]? = some b) (hpid : b.procId = pid) :
    (ipReadUdpReq w rq i b s).Settled ∧ (ipReadUdpReq w rq i b s).io.slot = none := by
  have hreply : ∀ io : Io, io.waiting = s.io.waiting →
      Agatha.Net.Settled s.net.bindings s.arpRequests (io.replyCap pid).waiting := by
    intro io hio
    rw [replyCap_waiting, hio]
    exact h.settled.reply h.nothing
  unfold ipReadUdpReq
  rw [hpid]
  split
  · rename_i io hm
    obtain ⟨hs, hw⟩ := frameMapAnywhere_none hm
    refine ⟨hreply io hw, h.replyCap_slot hw ?_⟩
    rw [hs]
    by_cases h0 : s.io.slot = none
    · exact .inl h0
    · exact .inr h0
  · rename_i cap io hm
    obtain ⟨hne, hs, hw⟩ := frameMapAnywhere_some hm
    have hw' : (io.unmapAddr w cap).waiting = s.io.waiting := unmapAddr_waiting.trans hw
    refine ⟨?_, h.replyCap_slot hw' (.inr hne)⟩
    have hsame : ((ipReadUdp rq.len b).2.procId, (ipReadUdp rq.len b).2.tcp) = (b.procId, b.tcp) := by
      unfold ipReadUdp
      split
      · rfl
      · dsimp only
        split_ifs <;> rfl
    apply (hreply _ hw').congr
    exact (map_set_same hi hsame).symm

theorem ipWriteUdp_spec (h : Serving pid s) (hpid : b.procId = pid) :
    (ipWriteUdp w rq b s).Settled ∧ ((ipWriteUdp w rq b s).io.slot = none ↔ s.io.slot = none ∨ s.io.Maps w) := by
  unfold ipWriteUdp
  split
  · rename_i io hm
    obtain ⟨hs, hw⟩ := frameMapAnywhere_none hm
    have hnot := not_maps hm
    constructor
    · show Agatha.Net.Settled s.net.bindings s.arpRequests io.waiting
      rw [hw]
      exact h.settled
    · show io.slot = none ↔ _
      rw [hs]
      tauto
  · rename_i cap io hm
    obtain ⟨hne, hs, hw⟩ := frameMapAnywhere_some hm
    have hmaps := maps_iff hm
    -- what was mapped came from the sender, who takes it back
    have hacc : Accepts pid io.waiting := by
      rw [hw]
      exact h.accepts.resolve_left hne
    have hset : Agatha.Net.Settled s.net.bindings s.arpRequests io.waiting := by
      rw [hw]
      exact h.settled
    have hdone : ∀ s' : Server, s'.Settled → s'.io.slot = none →
        s'.Settled ∧ (s'.io.slot = none ↔ s.io.slot = none ∨ s.io.Maps w) :=
      fun s' h1 h2 => ⟨h1, fun _ => .inr hmaps, fun _ => h2⟩
    split_ifs
    · unfold arpRequest
      split
      · apply hdone
        · obtain ⟨h1, h2 | h2⟩ := @udpWriteFinish_spec w io.next { procId := b.procId, cap := cap, len := rq.len }
            hs (by rw [hpid]; exact hacc) (hset.once _)
          · show Agatha.Net.Settled s.net.bindings s.arpRequests (udpWriteFinish w _ io.next).waiting
            rw [h2]
            exact hset
          · show Agatha.Net.Settled s.net.bindings s.arpRequests (udpWriteFinish w _ io.next).waiting
            rw [h2]
            apply hset.reply
            rw [hpid]
            exact h.nothing
        · exact (@udpWriteFinish_spec w io.next { procId := b.procId, cap := cap, len := rq.len }
            hs (by rw [hpid]; exact hacc) (hset.once _)).1
      · split_ifs
        · exact hdone _ hset hs
        · exact hdone _ hset hs
        · refine hdone _ (hset.cons ?_ ?_) hs
          · rw [hpid]
            exact h.nothing
          · rw [hpid]
            exact hacc
    · exact hdone _ hset hs

theorem netHandleMessage_spec (h : Serving pid s) : (netHandleMessage w pid rq s).Settled ∧
    ((netHandleMessage w pid rq s).io.slot = none ↔ s.io.slot = none ∨ GivesBack w pid rq s) := by
  have hother : ∀ s' : Server, s'.Settled ∧ s'.io.slot = s.io.slot → rq.type ≠ netRead → rq.type ≠ netWrite →
      s'.Settled ∧ (s'.io.slot = none ↔ s.io.slot = none ∨ GivesBack w pid rq s) := by
    rintro s' ⟨h1, h2⟩ hr hw
    refine ⟨h1, ?_⟩
    rw [h2]
    unfold GivesBack
    tauto
  unfold netHandleMessage
  split_ifs with t1 t2 t3 t4 t5 t6 t7
  · exact hother _ (handleBind_spec h) (by rw [t1]; decide) (by rw [t1]; decide)
  · exact hother _ (handleUnbind_spec h) (by rw [t2]; decide) (by rw [t2]; decide)
  · exact hother _ (handleTcpListen_spec h) (by rw [t3]; decide) (by rw [t3]; decide)
  · exact hother _ (handleTcpConnect_spec h) (by rw [t4]; decide) (by rw [t4]; decide)
  · exact hother _ (handleTcpDisconnect_spec h) (by rw [t5]; decide) (by rw [t5]; decide)
  · have hne : rq.type ≠ netWrite := by rw [t6]; decide
    unfold handleRead
    rcases @withBinding_cases s pid rq (fun i b s => if b.proto = protoUdp then ipReadUdpReq w rq i b s
        else if b.proto = protoTcp then withCon rq i b s fun c io => (ipReadTcpReq w b.procId rq c io).2 else s) with
      ⟨hno, he⟩ | ⟨i, b, hn, hb, hpid, he⟩
    · rw [he]
      refine ⟨h.settled, ⟨.inl, ?_⟩⟩
      rintro (h0 | ⟨-, b, hn, -⟩ | ⟨hw, -⟩)
      · exact h0
      · exact absurd hn (hno b)
      · exact absurd hw hne
    · rw [he]
      split_ifs with hu ht
      · obtain ⟨h1, h2⟩ := @ipReadUdpReq_spec w s pid i b rq h hb hpid
        exact ⟨h1, fun _ => .inr (.inl ⟨t6, b, hn, .inl hu⟩), fun _ => h2⟩
      · obtain ⟨h1, h2⟩ := @withCon_spec s pid i b rq (fun c io => (ipReadTcpReq w b.procId rq c io).2)
          (fun c => c.state ≠ .established ∨ s.io.Maps w) h hb hpid (by rw [hpid]; exact fun c => ipReadTcpReq_spec h)
        refine ⟨h1, h2.trans (or_congr_right ⟨fun hc => .inl ⟨t6, b, hn, .inr ⟨ht, hc⟩⟩, ?_⟩)⟩
        rintro (⟨-, d, hd, hcase⟩ | ⟨hw, -⟩)
        · rw [← hn.unique hd] at hcase
          exact (hcase.resolve_left hu).2
        · exact absurd hw hne
      · refine ⟨h.settled, ⟨.inl, ?_⟩⟩
        rintro (h0 | ⟨-, d, hd, hcase⟩ | ⟨hw, -⟩)
        · exact h0
        · rw [← hn.unique hd] at hcase
          exact absurd (hcase.resolve_left hu).1 ht
        · exact absurd hw hne
  · have hne : rq.type ≠ netRead := by rw [t7]; decide
    unfold handleWrite
    rcases @withBinding_cases s pid rq (fun i b s => if b.proto = protoUdp then ipWriteUdp w rq b s
        else if b.proto = protoTcp then withCon rq i b s (ipWriteTcp w b.procId rq) else s) with
      ⟨hno, he⟩ | ⟨i, b, hn, hb, hpid, he⟩
    · rw [he]
      refine ⟨h.settled, ⟨.inl, ?_⟩⟩
      rintro (h0 | ⟨hr, -⟩ | ⟨-, b, hn, -⟩)
      · exact h0
      · exact absurd hr hne
      · exact absurd hn (hno b)
    · rw [he]
      split_ifs with hu ht
      · obtain ⟨h1, h2⟩ := @ipWriteUdp_spec w s pid b rq h hpid
        refine ⟨h1, h2.trans (or_congr_right ⟨fun hm => .inr ⟨t7, b, hn, .inl ⟨hu, hm⟩⟩, ?_⟩)⟩
        rintro (⟨hr, -⟩ | ⟨-, d, hd, hcase⟩)
        · exact absurd hr hne
        · rw [← hn.unique hd] at hcase
          rcases hcase with ⟨-, hm⟩ | ⟨ht, -⟩
          · exact hm
          · rw [hu] at ht
            cases ht
      · obtain ⟨h1, h2⟩ := @withCon_spec s pid i b rq (ipWriteTcp w b.procId rq)
          (fun c => (c.state ≠ .established ∨ c.rcv.closing = true) ∨ w.alloc s.io.calls = true ∧ s.io.next.Maps w)
          h hb hpid (by rw [hpid]; exact fun c => ipWriteTcp_spec h)
        refine ⟨h1, h2.trans (or_congr_right ⟨fun hc => .inr ⟨t7, b, hn, .inr ⟨ht, hc⟩⟩, ?_⟩)⟩
        rintro (⟨hr, -⟩ | ⟨-, d, hd, hcase⟩)
        · exact absurd hr hne
        · rw [← hn.unique hd] at hcase
          exact (hcase.resolve_left fun hx => hu hx.1).2
      · refine ⟨h.settled, ⟨.inl, ?_⟩⟩
        rintro (h0 | ⟨hr, -⟩ | ⟨-, d, hd, hcase⟩)
        · exact h0
        · exact absurd hr hne
        · rw [← hn.unique hd] at hcase
          exact absurd (hcase.resolve_left fun hx => hu hx.1).1 ht
  · refine hother _ ⟨h.settled, rfl⟩ ?_ ?_
    · exact t6
    · exact t7

theorem Server.Initial.settled (h : s.Initial) : s.Settled := by
  unfold Server.Settled
  rw [h.bindings, h.requests, h.waiting]
  refine ⟨?_, fun pid => Nat.zero_le _, fun pid => le_rfl, ?_⟩
  · intro b hb
    cases hb
  · intro r hr
    cases hr

def Server.received (pid : ℤ) (give : Option (Option Cap)) (s : Server) : Server :=
  { s with io := { s.io with slot := give.join, waiting := s.io.waiting ++ [⟨pid, give.isSome⟩] } }

theorem serving_received {give : Option (Option Cap)} (h : s.Settled) (hfree : ∀ p ∈ s.io.waiting, p.pid ≠ pid) :
    Serving pid (s.received pid give) := by
  obtain ⟨h1, h2, h3⟩ := @Settled.recv _ _ _ pid h give.isSome hfree
  refine ⟨h1, h2, h3, ?_⟩
  cases give with
  | none => exact .inl rfl
  | some g => exact .inr ⟨⟨pid, true⟩, List.mem_append_right _ (List.mem_singleton_self _), rfl, rfl⟩

def NetEvent.ReturnsCap (w : World) (s : Server) : NetEvent → Prop
  | .message pid give rq => give.join = none ∨ GivesBack w pid rq (s.received pid give)
  | .frames _ _ => True

theorem NetEvent.run_message {give : Option (Option Cap)} (hslot : s.io.slot = none) :
    (NetEvent.message pid give rq).run w s = netHandleMessage w pid rq (s.received pid give) := by
  have hrecv : s.io.recvCap pid give = some (s.received pid give).io := by
    unfold Io.recvCap
    rw [hslot]
    rfl
  unfold NetEvent.run
  dsimp only
  rw [hrecv]
  rfl

theorem NetEvent.run_frames {pkts : List (List UInt8)} (hslot : s.io.slot = none) :
    (NetEvent.frames heap pkts).run w s = pkts.foldl (fun s pkt => s.netProcessPkt heap w pkt) s := by
  have hempty : ¬ s.io.slot.isSome = true := by
    rw [hslot]
    decide
  exact if_neg hempty

theorem NetEvent.run_spec {e : NetEvent} (h : s.Settled) (hslot : s.io.slot = none) (hposs : e.Possible s) :
    (e.run w s).Settled ∧ ((e.run w s).io.slot = none ↔ e.ReturnsCap w s) := by
  cases e with
  | message pid give rq =>
    have hserve := @serving_received s pid give h hposs
    rw [run_message hslot]
    exact netHandleMessage_spec hserve
  | frames heap pkts =>
    rw [run_frames hslot]
    obtain ⟨h1, h2⟩ := @frames_spec w s heap pkts h hslot
    exact ⟨h1, fun _ => trivial, fun _ => h2⟩

theorem NetRun.slot (run : NetRun (fun w s e => e.ReturnsCap w s) s) : s.Settled ∧ s.io.slot = none := by
  induction run with
  | start initial => exact ⟨initial.settled, initial.slot⟩
  | turn run possible hcond ih =>
    obtain ⟨h, hslot⟩ := ih
    obtain ⟨h1, h2⟩ := NetEvent.run_spec h hslot possible
    exact ⟨h1, h2.mpr hcond⟩

theorem NetEvent.run_stuck {e : NetEvent} (h : s.io.slot ≠ none) : e.run w s = s := by
  cases e with
  | message pid give rq =>
    obtain ⟨c, hc⟩ := Option.ne_none_iff_exists'.mp h
    unfold NetEvent.run Io.recvCap
    dsimp only
    rw [hc]
  | frames heap pkts =>
    unfold NetEvent.run
    dsimp only
    rw [if_pos (Option.isSome_iff_ne_none.mpr h)]

end Slot

end Agatha.Net
