import Agatha.Net.Frames
import Agatha.Net.Underway

namespace Agatha.Net

def Server.Answered (s : Server) : Prop :=
  ∀ pid, pendingOf pid s.net.bindings s.arpRequests = waitsOf pid s.io.waiting

def UdpWriteTaken (w : World) (rq : NetReq) (s : Server) : Prop :=
  s.io.Maps w ∧ w.alloc (s.io.calls + 1) = true ∧ w.alloc (s.io.calls + 2) = true ∧
    (s.arpMatchIp rq.addrRem = none → w.alloc (s.io.calls + 3) = true)

def ConnectTaken (w : World) (rq : NetReq) (s : Server) : Prop :=
  w.alloc s.io.calls = true ∧ w.alloc (s.io.calls + 1) = true ∧ w.alloc (s.io.calls + 2) = true ∧
    (s.arpMatchIp rq.addrRem = none → w.alloc (s.io.calls + 3) = true)

def DisconnectTaken (w : World) (c : Con) (io : Io) : Prop :=
  c.rcv.recvWait = [] ∧ c.state = .established ∧ w.alloc io.calls = true ∧ w.alloc (io.calls + 1) = true

def RequestTaken (w : World) (pid : ℤ) (rq : NetReq) (s : Server) : Prop :=
  rq.type = netBind ∨
  (rq.type = netUnbind ∧ ∃ b, Names pid rq s b) ∨
  (rq.type = netTcpListen ∧ ∃ b, Names pid rq s b ∧ b.proto = protoTcp ∧ w.alloc s.io.calls = true) ∨
  (rq.type = netTcpConnect ∧ ∃ b, Names pid rq s b ∧ b.proto = protoTcp ∧ ConnectTaken w rq s) ∨
  (rq.type = netTcpDisconnect ∧ ∃ b, Names pid rq s b ∧ b.proto = protoTcp ∧
    ∃ c, NamesCon rq b c ∧ DisconnectTaken w c s.io) ∨
  (rq.type = netRead ∧ ∃ b, Names pid rq s b ∧ (b.proto = protoUdp ∨
    b.proto = protoTcp ∧ ∃ c, NamesCon rq b c ∧ (c.state ≠ .established ∨ s.io.Maps w))) ∨
  (rq.type = netWrite ∧ ∃ b, Names pid rq s b ∧ (b.proto = protoUdp ∧ UdpWriteTaken w rq s ∨
    b.proto = protoTcp ∧ ∃ c, NamesCon rq b c ∧ ((c.state ≠ .established ∨ c.rcv.closing = true) ∨
      w.alloc s.io.calls = true ∧ s.io.next.Maps w)))

def FramesTaken (heap : Heap) (w : World) : List (List UInt8) → Server → Prop
  | [], _ => True
  | pkt :: pkts, s => FrameTaken heap w pkt s ∧ FramesTaken heap w pkts (s.netProcessPkt heap w pkt)

def NetEvent.Taken (w : World) (s : Server) : NetEvent → Prop
  | .message pid give rq => s.io.slot = none → RequestTaken w pid rq (s.received pid give)
  | .frames heap pkts => s.io.slot = none → FramesTaken heap w pkts s

section Answered

variable {w : World} {s s' : Server} {io io' : Io} {pid : ℤ} {ws : List Client} {c c' : Con} {i j : ℕ}
  {b : Binding TcpBinding} {bs bs' : List (Binding TcpBinding)} {rs : List ArpRequest} {p : IpPkt}
  {t' : TcpBinding} {mac ip pkt : List UInt8} {u : UdpWriteReq} {cap : Cap} {heap : Heap} {rq : NetReq}

def Even (bs : List (Binding TcpBinding)) (rs : List ArpRequest) (ws : List Client) : Prop :=
  ∀ pid, pendingOf pid bs rs = waitsOf pid ws

theorem pendingOf_set (hi : bs[i]? = some b) (pid : ℤ) :
    pendingOf pid (bs.set i { b with tcp := t' }) rs + (if b.procId = pid then b.tcp.pending else 0) =
      pendingOf pid bs rs + (if b.procId = pid then t'.pending else 0) := by
  have hset := @bindingsPending_set bs b t' i hi pid
  unfold pendingOf
  omega

theorem pendingOf_set_eq (hi : bs[i]? = some b) (ht : t'.pending = b.tcp.pending) (pid : ℤ) :
    pendingOf pid (bs.set i { b with tcp := t' }) rs = pendingOf pid bs rs := by
  have hset := @pendingOf_set i b bs rs t' hi pid
  rw [ht] at hset
  omega

theorem waitsOf_told (hlt : 0 < waitsOf pid ws) (pid' : ℤ) :
    waitsOf pid' (ws.eraseP fun p => decide (p.pid = pid)) + (if pid = pid' then 1 else 0) = waitsOf pid' ws := by
  obtain ⟨p, hp, hpid⟩ := exists_of_waitsOf_pos hlt
  split_ifs with he
  · subst he
    exact waitsOf_eraseP hp hpid
  · exact waitsOf_eraseP_ne fun h => he h.symm

theorem connectTcpArp_pending {bid : ℤ} {con : ℕ} (pid : ℤ) :
    pendingOf pid (connectTcpArp w bid con mac s).net.bindings rs = pendingOf pid s.net.bindings rs ∧
      (connectTcpArp w bid con mac s).io.waiting = s.io.waiting := by
  unfold connectTcpArp
  split
  · exact ⟨rfl, rfl⟩
  · split
    · exact ⟨rfl, rfl⟩
    · rename_i i _ _ b hi
      split
      · exact ⟨rfl, rfl⟩
      · split
        · exact ⟨rfl, rfl⟩
        · rename_i j _ _ c hj
          have hw := @sendTcpPkt_waits w ({ c with macRem := mac }, s.io)
          have hq := @sendTcpPkt_quiet w 0 ({ c with macRem := mac }, s.io)
          generalize sendTcpPkt w ({ c with macRem := mac }, s.io) = x at hw hq
          obtain ⟨c', io'⟩ := x
          have hwaits : c'.waits = c.waits := hw.trans (waits_congr rfl rfl)
          have hpend := @pending_set c c' b.tcp j hj
          rw [hwaits] at hpend
          exact ⟨pendingOf_set_eq hi (by omega) pid, hq.waiting⟩

theorem sendIpv4Pkt_of_alloc {len : ℕ} (h : w.alloc io.calls = true) : (io.sendIpv4Pkt w len).1 = true := by
  unfold Io.sendIpv4Pkt
  rw [if_pos h]

theorem udpWriteFinish_waiting (h : w.alloc io.calls = true) :
    (udpWriteFinish w u io).waiting = io.waiting.eraseP fun p => decide (p.pid = u.procId) := by
  have h1 := @sendIpv4Pkt_of_alloc w io (8 + u.len) h
  have h2 := @sendIpv4Pkt_waiting w io (8 + u.len)
  unfold udpWriteFinish
  generalize io.sendIpv4Pkt w (8 + u.len) = x at h1 h2
  obtain ⟨sent, io'⟩ := x
  dsimp only at h1 h2 ⊢
  rw [if_pos h1, replyCap_waiting, unmapAddr_waiting, h2]

theorem pendingOf_cons_write {r : ArpRequest} (hu : r.func = .udpWrite u) (pid : ℤ) :
    pendingOf pid bs (r :: rs) = pendingOf pid bs rs + if u.procId = pid then 1 else 0 := by
  unfold pendingOf
  rw [List.countP_cons]
  unfold ArpRequest.isWriteOf
  rw [hu]
  simp [Nat.add_assoc]

theorem pendingOf_cons_connect {r : ArpRequest} {bid : ℤ} {con : ℕ} (hu : r.func = .connect bid con) (pid : ℤ) :
    pendingOf pid bs (r :: rs) = pendingOf pid bs rs := by
  unfold pendingOf
  rw [List.countP_cons]
  unfold ArpRequest.isWriteOf
  rw [hu]
  simp

theorem ArpFunc.run_even {r : ArpRequest} (h : Even s.net.bindings (r :: rs) s.io.waiting)
    (hal : ∀ n, w.alloc n = true) :
    Even (r.func.run w mac s).net.bindings rs (r.func.run w mac s).io.waiting := by
  intro pid
  have hpid := h pid
  cases hf : r.func with
  | connect bid con =>
    obtain ⟨h1, h2⟩ := @connectTcpArp_pending w s rs mac bid con pid
    rw [pendingOf_cons_connect hf] at hpid
    show pendingOf pid (connectTcpArp w bid con mac s).net.bindings rs = waitsOf pid (connectTcpArp w bid con mac s).io.waiting
    rw [h1, h2, hpid]
  | udpWrite u =>
    have hpos : 0 < waitsOf u.procId s.io.waiting := by
      rw [← h u.procId]
      exact pendingOf_pos List.mem_cons_self hf
    have htold := waitsOf_told hpos pid
    rw [pendingOf_cons_write hf] at hpid
    show pendingOf pid s.net.bindings rs = waitsOf pid (udpWriteFinish w u s.io).waiting
    rw [udpWriteFinish_waiting (hal _)]
    omega

theorem runRequests_even {todo : List ArpRequest} (h : Even s.net.bindings (todo ++ s.arpRequests) s.io.waiting)
    (hal : ∀ r ∈ todo, ∀ n, w.alloc n = true) :
    (runRequests w mac todo s).Answered := by
  induction todo generalizing s with
  | nil => exact h
  | cons r next ih =>
    unfold runRequests
    apply ih
    · rw [ArpFunc.run_lists.2]
      exact ArpFunc.run_even h (hal r List.mem_cons_self)
    · exact fun r hr => hal r (List.mem_cons_of_mem _ hr)

theorem arpAddEntry_answered (h : s.Answered) (hal : ∀ r ∈ s.arpRequests, r.ip = ip → ∀ n, w.alloc n = true) :
    (arpAddEntry w ip mac s).Answered := by
  have hperm : Even s.net.bindings
      (s.arpRequests.filter (fun r => decide (r.ip = ip)) ++ s.arpRequests.filter fun r => decide (r.ip ≠ ip))
      s.io.waiting := by
    intro pid
    have hfilter := List.filter_append_perm (fun r : ArpRequest => decide (r.ip = ip)) s.arpRequests
    have hcount : (s.arpRequests.filter (fun r => decide (r.ip = ip)) ++
        s.arpRequests.filter fun r => decide (r.ip ≠ ip)).Perm s.arpRequests := by simpa using hfilter
    have hpid := h pid
    unfold pendingOf at hpid ⊢
    rwa [hcount.countP_eq]
  have htodo : ∀ r ∈ s.arpRequests.filter (fun r => decide (r.ip = ip)), ∀ n, w.alloc n = true := by
    intro r hr
    obtain ⟨hr, hip⟩ := List.mem_filter.mp hr
    exact hal r hr (of_decide_eq_true hip)
  unfold arpAddEntry
  dsimp only
  split
  · exact runRequests_even hperm htodo
  · split_ifs
    · exact runRequests_even hperm htodo
    · exact h

theorem handleArp_answered (h : s.Answered) (hal : AddressTaken w pkt s) : (handleArp w pkt s).Answered := by
  unfold handleArp handleArpRequest
  dsimp only
  split_ifs
  · exact h
  · exact h
  · exact h
  · exact arpAddEntry_answered h hal
  · exact h
  · exact h
  · exact arpAddEntry_answered h hal
  · exact h
  · exact h

theorem SegmentTaken.not_forgets {segs : List TcpFrame} {mac : Option (List UInt8)}
    (h : SegmentTaken w segs mac p b.tcp) : ¬ forgetsIn p b.tcp := by
  rintro ⟨c, hc, hf⟩
  unfold SegmentTaken at h
  rw [hc] at h
  rw [h.1] at hf
  cases hf

theorem handleTcp_answered (h : s.Answered) (hs : s.Settled)
    (hp : ∀ i b, findBindingIp protoTcp (word p.data 2) s.net.bindings = some i → s.net.bindings[i]? = some b →
      SegmentTaken w s.io.segments (s.arpMatchIp p.srcIpv4) p b.tcp) : (handleTcp w p s).Answered := by
  unfold handleTcp
  split
  · exact h
  · rename_i i hfind
    split
    · exact h
    · rename_i b hi
      obtain ⟨-, hcase⟩ := @tcpInput_spec w s.io b.procId p (s.arpMatchIp p.srcIpv4) 0 b.tcp
        (hs.proper b (List.mem_of_getElem? hi))
      generalize tcpInput w (s.arpMatchIp p.srcIpv4) p b.procId b.tcp s.io = x at hcase
      obtain ⟨t, io⟩ := x
      dsimp only at hcase ⊢
      intro pid
      show pendingOf pid (s.net.bindings.set i { b with tcp := t }) s.arpRequests = waitsOf pid io.waiting
      have hset := @pendingOf_set i b s.net.bindings s.arpRequests t hi pid
      have hpid := h pid
      rcases hcase with ⟨hw, -, hkeep⟩ | ⟨hw, htold⟩
      · rw [hw]
        have hk := hkeep (hp i b hfind hi).not_forgets
        rw [hk] at hset
        omega
      · have hpos : 0 < waitsOf b.procId s.io.waiting := by
          rw [← h b.procId]
          have hnum := @pendingOf_set i b s.net.bindings s.arpRequests t hi b.procId
          rw [if_pos rfl, if_pos rfl] at hnum
          omega
        have hwaits := waitsOf_told hpos pid
        rw [hw, reply_waiting]
        split_ifs at hset hwaits <;> omega

theorem handOver_answered (h : s.Answered) (hs : s.Settled) (hp : PacketTaken w p s) : (s.handOver w p).Answered := by
  unfold Server.handOver
  split_ifs with h1 h2 h3
  · unfold handleIcmp
    split_ifs
    · split
      · exact h
      · intro pid
        show _ = waitsOf pid (s.io.sendIpv4Pkt w (8 + lenSub p.len 8)).2.waiting
        rw [sendIpv4Pkt_waiting]
        exact h pid
    · exact h
  · exact handleTcp_answered h hs (hp h2)
  · intro pid
    have hsum : bindingsPending pid (handleUdp p s.net).bindings = bindingsPending pid s.net.bindings := by
      have hf := congrArg (List.map fun x : ℤ × TcpBinding => if x.1 = pid then x.2.pending else 0)
        (@handleUdp_clients p s.net)
      rw [List.map_map, List.map_map] at hf
      exact congrArg List.sum hf
    have hpid := h pid
    unfold pendingOf at hpid ⊢
    rw [← hpid]
    exact congrArg (· + _) hsum
  · exact h

theorem netProcessPkt_answered (h : s.Answered) (hs : s.Settled) (hpkt : FrameTaken heap w pkt s) :
    (s.netProcessPkt heap w pkt).Answered := by
  unfold FrameTaken at hpkt
  unfold Server.netProcessPkt
  split_ifs at hpkt ⊢ with h6 h8
  · exact handleArp_answered h hpkt
  · have hnet : ∀ net' : NetDev TcpBinding, net'.bindings = s.net.bindings →
        ({ s with net := net' } : Server).Answered ∧ ({ s with net := net' } : Server).Settled := by
      intro net' he
      constructor
      · intro pid
        show pendingOf pid net'.bindings s.arpRequests = _
        rw [he]
        exact h pid
      · show Agatha.Net.Settled net'.bindings s.arpRequests s.io.waiting
        rw [he]
        exact hs
    split
    · rename_i net' hr
      exact (hnet net' (receiveIpv4_bindings hr)).1
    · rename_i p net' hr
      obtain ⟨h1, h2⟩ := hnet net' (receiveIpv4_bindings hr)
      exact handOver_answered h1 h2 (hpkt h8 p net' hr)
  · exact h

theorem frames_answered {pkts : List (List UInt8)} (h : s.Answered) (hs : s.Settled) (hslot : s.io.slot = none)
    (hf : FramesTaken heap w pkts s) : (pkts.foldl (fun s pkt => s.netProcessPkt heap w pkt) s).Answered := by
  induction pkts generalizing s with
  | nil => exact h
  | cons pkt pkts ih =>
    obtain ⟨hfirst, hrest⟩ := hf
    obtain ⟨h1, h2⟩ := @netProcessPkt_spec w s pkt heap hs hslot
    exact ih (netProcessPkt_answered h hs hfirst) h1 h2 hrest

structure Asked (pid : ℤ) (s : Server) : Prop where
  serving : Serving pid s
  others : ∀ pid', pendingOf pid' s.net.bindings s.arpRequests + (if pid = pid' then 1 else 0) = waitsOf pid' s.io.waiting

theorem asked_received {give : Option (Option Cap)} (h : s.Answered) (hs : s.Settled)
    (hfree : ∀ p ∈ s.io.waiting, p.pid ≠ pid) : Asked pid (s.received pid give) := by
  refine ⟨serving_received hs hfree, ?_⟩
  intro pid'
  show pendingOf pid' s.net.bindings s.arpRequests + _ = waitsOf pid' (s.io.waiting ++ [⟨pid, give.isSome⟩])
  rw [h pid']
  unfold waitsOf
  rw [List.countP_append, List.countP_singleton]
  simp

theorem Asked.replied (h : Asked pid s) (hw : s'.io.waiting = s.io.waiting.eraseP fun p => decide (p.pid = pid))
    (hp : ∀ pid', pendingOf pid' s'.net.bindings s'.arpRequests = pendingOf pid' s.net.bindings s.arpRequests) :
    s'.Answered := by
  intro pid'
  have hpos : 0 < waitsOf pid s.io.waiting := by
    rw [h.serving.waits]
    decide
  have htold := waitsOf_told hpos pid'
  have ho := h.others pid'
  rw [hp pid', hw]
  omega

theorem Asked.kept (h : Asked pid s) (hw : s'.io.waiting = s.io.waiting)
    (hp : ∀ pid', pendingOf pid' s'.net.bindings s'.arpRequests =
      pendingOf pid' s.net.bindings s.arpRequests + if pid = pid' then 1 else 0) : s'.Answered := by
  intro pid'
  rw [hp pid', hw]
  exact h.others pid'

theorem Asked.idle (h : Asked pid s) (hi : s.net.bindings[i]? = some b) (hpid : b.procId = pid) :
    b.tcp.pending = 0 := by
  have h0 := h.serving.nothing
  have hnum := @bindingsPending_set s.net.bindings b emptyTcp i hi pid
  have hzero : emptyTcp.pending = 0 := rfl
  rw [if_pos hpid, if_pos hpid, hzero] at hnum
  unfold pendingOf at h0
  omega

theorem idle_con (h0 : b.tcp.pending = 0) (hj : b.tcp.cons[j]? = some c) : c.waits = false := by
  unfold TcpBinding.pending at h0
  have hcount : b.tcp.cons.countP Con.waits = 0 := by omega
  simpa using List.countP_eq_zero.mp hcount c (List.mem_of_getElem? hj)

theorem Asked.add {t : TcpBinding} (h : Asked pid s) (hi : s.net.bindings[i]? = some b) (hpid : b.procId = pid)
    (ht : t.pending = b.tcp.pending + 1) (hw : io.waiting = s.io.waiting) : (s.setTcp i b t io).Answered := by
  apply h.kept hw
  intro pid'
  have hset := @pendingOf_set i b s.net.bindings s.arpRequests t hi pid'
  show pendingOf pid' (s.net.bindings.set i { b with tcp := t }) s.arpRequests = _
  rw [ht] at hset
  by_cases he : pid = pid'
  · rw [if_pos (hpid.trans he), if_pos (hpid.trans he)] at hset
    rw [if_pos he]
    omega
  · have hne : ¬ b.procId = pid' := fun h => he (hpid.symm.trans h)
    rw [if_neg hne, if_neg hne] at hset
    rw [if_neg he]
    omega

theorem handleBind_answered (h : Asked pid s) : (handleBind w pid rq s).Answered := by
  unfold handleBind
  dsimp only
  split_ifs
  · exact h.replied reply_waiting fun _ => rfl
  · exact h.replied reply_waiting fun _ => rfl
  · exact h.replied reply_waiting fun _ => rfl
  · exact h.replied reply_waiting fun _ => rfl
  · apply h.replied reply_waiting
    intro pid'
    have h0 : emptyTcp.pending = 0 := rfl
    unfold pendingOf
    rw [bindingsPending_cons]
    dsimp only
    rw [h0, ite_self, Nat.zero_add]

theorem bindingsPending_eraseIdx (hi : bs[i]? = some b) (pid : ℤ) :
    bindingsPending pid (bs.eraseIdx i) + (if b.procId = pid then b.tcp.pending else 0) = bindingsPending pid bs := by
  induction bs generalizing i with
  | nil => cases hi
  | cons d bs ih =>
    cases i with
    | zero =>
      cases hi
      rw [List.eraseIdx_cons_zero, bindingsPending_cons, Nat.add_comm]
    | succ i =>
      have hrec := ih (i := i) hi
      rw [List.eraseIdx_cons_succ, bindingsPending_cons, bindingsPending_cons]
      omega

theorem handleUnbind_answered (h : Asked pid s) (hb : ∃ b, Names pid rq s b) : (handleUnbind pid rq s).Answered := by
  obtain ⟨b, i, hi, hb⟩ := hb
  have hpid := findBinding_procId hi hb
  have h0 := h.idle hb hpid
  unfold handleUnbind
  rw [hi]
  apply h.replied reply_waiting
  intro pid'
  have herase := @bindingsPending_eraseIdx i b s.net.bindings hb pid'
  rw [h0, ite_self, Nat.add_zero] at herase
  unfold pendingOf
  exact congrArg (· + _) herase

theorem withBinding_of_names {f : ℕ → Binding TcpBinding → Server → Server} (hn : Names pid rq s b) :
    ∃ i, s.net.bindings[i]? = some b ∧ b.procId = pid ∧ withBinding pid rq s f = f i b s := by
  rcases @withBinding_cases s pid rq f with ⟨hno, -⟩ | ⟨i, d, hd, hi, hpid, he⟩
  · exact absurd hn (hno b)
  · cases hn.unique hd
    exact ⟨i, hi, hpid, he⟩

theorem withCon_of_names {f : Con → Io → Con × Io} (hn : NamesCon rq b c) :
    ∃ j, b.tcp.cons[j]? = some c ∧
      withCon rq i b s f = s.setTcp i b (b.tcp.setCon j (f c s.io).1) (f c s.io).2 := by
  rcases @withCon_cases s i b rq f with ⟨hno, -⟩ | ⟨j, d, hd, hj, he⟩
  · exact absurd hn (hno c)
  · cases hn.unique hd
    exact ⟨j, hj, he⟩

theorem ipTcpListen_answered (h : Asked pid s) (hi : s.net.bindings[i]? = some b) (hpid : b.procId = pid)
    (hal : w.alloc s.io.calls = true) : (ipTcpListen w i b s).Answered := by
  have h0 := h.idle hi hpid
  unfold ipTcpListen
  rw [if_pos hal]
  refine h.add hi hpid ?_ rfl
  unfold TcpBinding.pending at h0 ⊢
  dsimp only
  rw [Option.toList_some, List.length_singleton]
  omega

theorem arpRequest_connect_answered {bid : ℤ} {con : ℕ} (h : s.Answered) :
    (arpRequest w ip (.connect bid con) s).Answered := by
  unfold arpRequest
  split
  · rename_i mac _
    intro pid
    have hreq : ((ArpFunc.connect bid con).run w mac s).arpRequests = s.arpRequests := ArpFunc.run_lists.2
    rw [hreq]
    obtain ⟨h1, h2⟩ := @connectTcpArp_pending w s s.arpRequests mac bid con pid
    show pendingOf pid (connectTcpArp w bid con mac s).net.bindings s.arpRequests = waitsOf pid (connectTcpArp w bid con mac s).io.waiting
    rw [h1, h2]
    exact h pid
  · split_ifs
    · exact h
    · exact h
    · intro pid
      show pendingOf pid s.net.bindings (⟨ip, .connect bid con⟩ :: s.arpRequests) = _
      rw [pendingOf_cons_connect rfl]
      exact h pid

theorem ipTcpConnect_answered (h : Asked pid s) (hi : s.net.bindings[i]? = some b) (hpid : b.procId = pid)
    (hal : w.alloc s.io.calls = true) : (ipTcpConnect w rq i b s).Answered := by
  rcases @ipTcpConnect_cases w s i b rq with ⟨hno, -⟩ | ⟨-, c, c', io, -, hwaits, hq, he⟩
  · rw [hal] at hno
    cases hno
  · rw [he]
    apply arpRequest_connect_answered
    refine h.add hi hpid ?_ hq.waiting
    unfold TcpBinding.pending
    dsimp only
    rw [List.countP_cons_of_pos hwaits]
    omega

theorem ipTcpDisconnect_answered (h : Asked pid s) (hi : s.net.bindings[i]? = some b) (hpid : b.procId = pid)
    (hn : NamesCon rq b c) (htaken : DisconnectTaken w c s.io) : (withCon rq i b s (ipTcpDisconnect w)).Answered := by
  obtain ⟨hr, hs, hal, -⟩ := htaken
  obtain ⟨j, hj, he⟩ := @withCon_of_names s c i b rq (ipTcpDisconnect w) hn
  have h0 := h.idle hi hpid
  have hnot := idle_con h0 hj
  have hm := @ipTcpDisconnect_mild w s.io c
  have hwaits : (ipTcpDisconnect w c s.io).1.waits = true := by
    unfold ipTcpDisconnect
    dsimp only
    rw [if_neg (not_not.mpr hr), if_pos (.inl hs), sendTcpPkt_waits]
    unfold addPkt
    dsimp only
    rw [if_pos hal]
    unfold Con.waits
    rw [hs]
    have hfin : TcpSeg.fin ⟨c.nextSeq, tcpFlagAck + tcpFlagFin, 0⟩ = true := by
      show hasFlag (tcpFlagAck + tcpFlagFin) tcpFlagFin = true
      decide
    dsimp only
    rw [List.any_append, List.any_cons, hfin, Bool.true_or, Bool.or_true]
  rw [he]
  generalize ipTcpDisconnect w c s.io = x at hm hwaits
  obtain ⟨c', io⟩ := x
  have hpend := @pending_set c c' b.tcp j hj
  dsimp only at hwaits
  rw [hnot, hwaits] at hpend
  exact h.add hi hpid (by simpa using hpend) hm.waiting

theorem ipReadUdpReq_answered (h : Asked pid s) (hi : s.net.bindings[i]? = some b) (hpid : b.procId = pid) :
    (ipReadUdpReq w rq i b s).Answered := by
  unfold ipReadUdpReq
  rw [hpid]
  split
  · rename_i io hm
    obtain ⟨-, hw⟩ := frameMapAnywhere_none hm
    refine h.replied ?_ fun _ => rfl
    dsimp only
    rw [replyCap_waiting, hw]
  · rename_i cap io hm
    obtain ⟨-, -, hw⟩ := frameMapAnywhere_some hm
    apply h.replied
    · dsimp only
      rw [replyCap_waiting, unmapAddr_waiting, hw]
    · intro pid'
      have hsame : (ipReadUdp rq.len b).2 = { (ipReadUdp rq.len b).2 with procId := b.procId, tcp := b.tcp } := by
        unfold ipReadUdp
        split
        · rfl
        · dsimp only
          split_ifs <;> rfl
      have hset : ∀ (bs : List (Binding TcpBinding)) (i : ℕ) (d : Binding TcpBinding), bs[i]? = some b →
          d.procId = b.procId → d.tcp = b.tcp → bindingsPending pid' (bs.set i d) = bindingsPending pid' bs := by
        intro bs i d hi hp ht
        unfold bindingsPending
        rw [map_set_same hi (by rw [hp, ht])]
      unfold pendingOf
      refine congrArg (· + _) (hset _ i _ hi ?_ ?_)
      · rw [hsame]
      · rw [hsame]

theorem withCon_answered {f : Con → Io → Con × Io} {cond : Prop} (h : Asked pid s)
    (hi : s.net.bindings[i]? = some b) (hpid : b.procId = pid) (hn : NamesCon rq b c) (hcond : cond)
    (hf : Answers pid s c (f c s.io) cond) : (withCon rq i b s f).Answered := by
  obtain ⟨j, hj, he⟩ := @withCon_of_names s c i b rq f hn
  obtain ⟨⟨len, io₀, io₁, hq⟩, hw, -, -⟩ := hf
  have h0 := h.idle hi hpid
  have hnot := idle_con h0 hj
  have hle : (f c s.io).1.waits.toNat ≤ c.waits.toNat := hq.waits_le
  have hpend := @pending_set c (f c s.io).1 b.tcp j hj
  rw [he]
  apply h.replied
  · rcases hw with ⟨hno, -⟩ | ⟨-, hw⟩
    · exact absurd hcond hno
    · exact hw
  · intro pid'
    rw [hnot] at hle hpend
    rw [Nat.le_zero.mp hle] at hpend
    exact pendingOf_set_eq hi hpend pid'

theorem frameMapAnywhere_calls (h : io.frameMapAnywhere w = (some cap, io')) : io'.calls = io.calls + 1 := by
  unfold Io.frameMapAnywhere at h
  split at h
  · cases h
  · split_ifs at h
    · cases h
      rfl
    · cases h

theorem ipWriteUdp_answered (h : Asked pid s) (hpid : b.procId = pid) (htaken : UdpWriteTaken w rq s) :
    (ipWriteUdp w rq b s).Answered := by
  obtain ⟨hm, h1, h2, h3⟩ := htaken
  unfold ipWriteUdp
  cases hx : s.io.frameMapAnywhere w with
  | mk o io =>
    cases o with
    | none => exact absurd hm (not_maps hx)
    | some cap =>
      obtain ⟨-, -, hw⟩ := frameMapAnywhere_some hx
      have hcalls := frameMapAnywhere_calls hx
      dsimp only
      rw [hcalls, if_pos h1]
      unfold arpRequest
      have hmac : ({ s with io := io.next } : Server).arpMatchIp rq.addrRem = s.arpMatchIp rq.addrRem := rfl
      have hnext : io.next.calls = s.io.calls + 2 := by
        unfold Io.next
        rw [hcalls]
      rw [hmac]
      cases hip : s.arpMatchIp rq.addrRem with
      | some mac =>
        refine h.replied ?_ fun _ => rfl
        show (udpWriteFinish w _ io.next).waiting = _
        rw [udpWriteFinish_waiting (by rw [hnext]; exact h2)]
        have hwait : io.next.waiting = s.io.waiting := hw
        rw [hwait, hpid]
      | none =>
        have hnext2 : io.next.next.calls = s.io.calls + 3 := by
          unfold Io.next at hnext ⊢
          dsimp only at hnext ⊢
          omega
        have h4 := h3 hip
        dsimp only
        rw [hnext, hnext2, h2, h4, if_neg (by decide), if_neg (by decide)]
        apply h.kept
        · exact hw
        · intro pid'
          show pendingOf pid' s.net.bindings (_ :: s.arpRequests) = _
          rw [pendingOf_cons_write rfl, hpid]

theorem netHandleMessage_answered (h : Asked pid s) (htaken : RequestTaken w pid rq s) :
    (netHandleMessage w pid rq s).Answered := by
  unfold netHandleMessage
  rcases htaken with ht | ⟨ht, hb⟩ | ⟨ht, b, hn, hproto, hal⟩ | ⟨ht, b, hn, hproto, hal⟩ |
    ⟨ht, b, hn, hproto, c, hc, hdis⟩ | ⟨ht, b, hn, hcase⟩ | ⟨ht, b, hn, hcase⟩
  · rw [if_pos ht]
    exact handleBind_answered h
  · rw [if_neg (by rw [ht]; decide), if_pos ht]
    exact handleUnbind_answered h hb
  · rw [if_neg (by rw [ht]; decide), if_neg (by rw [ht]; decide), if_pos ht]
    unfold handleTcpListen
    obtain ⟨i, hi, hpid, he⟩ := @withBinding_of_names s pid b rq
      (fun i b s => if b.proto = protoTcp then ipTcpListen w i b s else s) hn
    rw [he, if_pos hproto]
    exact ipTcpListen_answered h hi hpid hal
  · rw [if_neg (by rw [ht]; decide), if_neg (by rw [ht]; decide), if_neg (by rw [ht]; decide), if_pos ht]
    unfold handleTcpConnect
    obtain ⟨i, hi, hpid, he⟩ := @withBinding_of_names s pid b rq
      (fun i b s => if b.proto = protoTcp then ipTcpConnect w rq i b s else s) hn
    rw [he, if_pos hproto]
    exact ipTcpConnect_answered h hi hpid hal.1
  · rw [if_neg (by rw [ht]; decide), if_neg (by rw [ht]; decide), if_neg (by rw [ht]; decide),
      if_neg (by rw [ht]; decide), if_pos ht]
    unfold handleTcpDisconnect
    obtain ⟨i, hi, hpid, he⟩ := @withBinding_of_names s pid b rq
      (fun i b s => if b.proto = protoTcp then withCon rq i b s (ipTcpDisconnect w) else s) hn
    rw [he, if_pos hproto]
    exact ipTcpDisconnect_answered h hi hpid hc hdis
  · rw [if_neg (by rw [ht]; decide), if_neg (by rw [ht]; decide), if_neg (by rw [ht]; decide),
      if_neg (by rw [ht]; decide), if_neg (by rw [ht]; decide), if_pos ht]
    unfold handleRead
    obtain ⟨i, hi, hpid, he⟩ := @withBinding_of_names s pid b rq (fun i b s =>
      if b.proto = protoUdp then ipReadUdpReq w rq i b s
      else if b.proto = protoTcp then withCon rq i b s fun c io => (ipReadTcpReq w b.procId rq c io).2 else s) hn
    rw [he]
    rcases hcase with hu | ⟨htcp, c, hc, hcond⟩
    · rw [if_pos hu]
      exact ipReadUdpReq_answered h hi hpid
    · rw [if_neg (by rw [htcp]; decide), if_pos htcp, hpid]
      exact withCon_answered h hi hpid hc hcond (ipReadTcpReq_spec h.serving)
  · rw [if_neg (by rw [ht]; decide), if_neg (by rw [ht]; decide), if_neg (by rw [ht]; decide),
      if_neg (by rw [ht]; decide), if_neg (by rw [ht]; decide), if_neg (by rw [ht]; decide), if_pos ht]
    unfold handleWrite
    obtain ⟨i, hi, hpid, he⟩ := @withBinding_of_names s pid b rq (fun i b s =>
      if b.proto = protoUdp then ipWriteUdp w rq b s
      else if b.proto = protoTcp then withCon rq i b s (ipWriteTcp w b.procId rq) else s) hn
    rw [he]
    rcases hcase with ⟨hu, hwrite⟩ | ⟨htcp, c, hc, hcond⟩
    · rw [if_pos hu]
      exact ipWriteUdp_answered h hpid hwrite
    · rw [if_neg (by rw [htcp]; decide), if_pos htcp, hpid]
      exact withCon_answered h hi hpid hc hcond (ipWriteTcp_spec h.serving)

theorem handleBind_underway (h : s.AllUnderway) : (handleBind w pid rq s).AllUnderway := by
  have hcount : ∀ io : Io, io.segments = s.io.segments →
      ({ s with io := io, nBindingId := s.nBindingId + 1 } : Server).AllUnderway := fun io hio =>
    h.mono rfl (by dsimp only; omega) (fun _ hr => hr) fun _ hf => hio.symm ▸ hf
  unfold handleBind
  dsimp only
  split_ifs
  · exact h.withIo reply_segments
  · exact hcount _ reply_segments
  · exact hcount _ reply_segments
  · exact hcount _ reply_segments
  · have hold := hcount (s.io.next.next.reply pid) reply_segments
    refine ⟨?_, ?_, ?_, ?_⟩
    · intro b hb
      rcases List.mem_cons.mp hb with rfl | hb
      · constructor
        · intro c hc
          cases hc
        · intro c hc
          cases hc
      · exact hold.tcp b hb
    · refine List.nodup_cons.mpr ⟨?_, h.distinct⟩
      intro hmem
      obtain ⟨b, hb, he⟩ := List.mem_map.mp hmem
      have hlt := h.below b hb
      dsimp only at he
      omega
    · intro b hb
      rcases List.mem_cons.mp hb with rfl | hb
      · dsimp only
        omega
      · exact hold.below b hb
    · intro b hb
      rcases List.mem_cons.mp hb with rfl | hb
      · refine ⟨?_, List.nodup_nil⟩
        intro k hk
        cases hk
      · exact hold.numbered b hb

theorem handleUnbind_underway (h : s.AllUnderway) : (handleUnbind pid rq s).AllUnderway := by
  unfold handleUnbind
  split
  · exact h
  · rename_i i _
    have hmem : ∀ b ∈ s.net.bindings.eraseIdx i, b ∈ s.net.bindings := fun b => List.mem_of_mem_eraseIdx
    refine ⟨?_, h.distinct.sublist ((List.eraseIdx_sublist _ _).map _), fun b hb => h.below b (hmem b hb),
      fun b hb => h.numbered b (hmem b hb)⟩
    intro b hb
    exact (h.tcp b (hmem b hb)).mono (fun _ hr => hr) fun _ hf => reply_segments.symm ▸ hf

theorem TcpBinding.Numbered.new {t t' : TcpBinding} {bid : ℤ} {ks : List (ℤ × ℕ)} (h : t.Numbered bid)
    (hks : ks.Sublist (t.all.map Con.key)) (hkeys : (t'.all.map Con.key).Perm ((bid, t.nextConId) :: ks))
    (hnext : t'.nextConId = t.nextConId + 1) : t'.Numbered bid := by
  constructor
  · intro k hk
    rw [hnext]
    rcases List.mem_cons.mp (hkeys.mem_iff.mp hk) with rfl | hk
    · exact ⟨rfl, Nat.lt_succ_self _⟩
    · obtain ⟨h1, h2⟩ := h.mine k (hks.subset hk)
      exact ⟨h1, Nat.lt_succ_of_lt h2⟩
  · rw [hkeys.nodup_iff]
    refine List.nodup_cons.mpr ⟨fun hmem => ?_, h.distinct.sublist hks⟩
    exact absurd (h.mine _ (hks.subset hmem)).2 (lt_irrefl _)

theorem ipTcpListen_underway (h : s.AllUnderway) (hi : s.net.bindings[i]? = some b) : (ipTcpListen w i b s).AllUnderway := by
  unfold ipTcpListen
  split_ifs
  · have hb := List.mem_of_getElem? hi
    have hsub : (b.tcp.cons.map Con.key).Sublist (b.tcp.all.map Con.key) := (List.sublist_append_right _ _).map _
    refine h.setTcp hi ⟨(h.tcp b hb).cons, ?_⟩ ((h.numbered b hb).new hsub (List.Perm.refl _) rfl) fun _ hf => hf
    rintro c ⟨⟩
    exact .inl ⟨rfl, rfl⟩
  · exact h.withIo rfl

theorem arpRequest_underway {con : ℕ} (h : s.Underway (⟨ip, .connect b.id con⟩ :: s.arpRequests))
    (h1 : w.alloc s.io.calls = true) (h2 : s.arpMatchIp ip = none → w.alloc (s.io.calls + 1) = true) :
    (arpRequest w ip (.connect b.id con) s).AllUnderway := by
  unfold arpRequest
  cases hip : s.arpMatchIp ip with
  | some mac =>
    have hrun := ArpFunc.run_underway (m := mac) h h1
    rw [← (@ArpFunc.run_lists w (.connect b.id con) mac s).2] at hrun
    exact hrun
  | none =>
    have h2 := h2 hip
    dsimp only
    rw [if_neg (by rw [h1]; decide), if_neg (by show ¬ w.alloc (s.io.calls + 1) = false; rw [h2]; decide)]
    exact h.mono rfl le_rfl (fun _ hr => hr) fun _ hf => hf

theorem ipTcpConnect_underway (h : s.AllUnderway) (hi : s.net.bindings[i]? = some b) (htaken : ConnectTaken w rq s) :
    (ipTcpConnect w rq i b s).AllUnderway := by
  obtain ⟨h1, h2, h3, h4⟩ := htaken
  have hb := List.mem_of_getElem? hi
  unfold ipTcpConnect
  rw [if_pos h1]
  dsimp only
  rw [addPkt_of_alloc h2]
  refine arpRequest_underway ?_ h3 h4
  refine (h.mono rfl le_rfl (fun _ hr => List.mem_cons_of_mem _ hr) fun _ hf => hf).setTcp hi ⟨?_, (h.tcp b hb).listens⟩ ?_ fun _ hf => hf
  · intro c hc
    rcases List.mem_cons.mp hc with rfl | hc
    · have hsyn : TcpSeg.syn ⟨0x1000, tcpFlagSyn, 0⟩ = true := by decide
      refine ⟨fun _ => .inr ⟨_, hsyn, rfl, _, List.mem_cons_self, rfl⟩, fun he => ?_, fun he => ?_⟩
      · cases he
      · cases he
    · exact ((h.tcp b hb).cons c hc).mono (fun _ hr _ => List.mem_cons_of_mem _ hr) fun _ hf => hf
  · refine (h.numbered b hb).new (List.Sublist.refl _) ?_ rfl
    unfold TcpBinding.all
    dsimp only
    rw [List.map_append, List.map_append, List.map_cons]
    exact List.perm_middle

theorem withCon_underway {f : Con → Io → Con × Io} (h : s.AllUnderway) (hi : s.net.bindings[i]? = some b)
    (hn : NamesCon rq b c) (hnow : (f c s.io).1.Underway s.arpRequests (f c s.io).2.segments)
    (hkey : (f c s.io).1.key = c.key) (hsegs : ∀ g ∈ s.io.segments, g ∈ (f c s.io).2.segments) :
    (withCon rq i b s f).AllUnderway := by
  obtain ⟨j, hj, he⟩ := @withCon_of_names s c i b rq f hn
  have hb := List.mem_of_getElem? hi
  rw [he]
  refine h.setTcp hi ((h.tcp b hb).set hnow hsegs) ((h.numbered b hb).congr ?_ rfl) hsegs
  unfold TcpBinding.all TcpBinding.setCon
  dsimp only
  rw [List.map_append, List.map_append, map_set_same hj hkey]

theorem withCon_quiet_underway {f : Con → Io → Con × Io} {cond : Prop} (h : s.AllUnderway) (ha : Asked pid s)
    (hi : s.net.bindings[i]? = some b) (hpid : b.procId = pid) (hn : NamesCon rq b c)
    (hf : Answers pid s c (f c s.io) cond) : (withCon rq i b s f).AllUnderway := by
  obtain ⟨⟨len, io₀, io₁, hq⟩, -, -, hsegs⟩ := hf
  obtain ⟨j, hj, -⟩ := @withCon_of_names s c i b rq f hn
  have hnot := idle_con (ha.idle hi hpid) hj
  have hle : (f c s.io).1.waits.toNat ≤ c.waits.toNat := hq.waits_le
  have hnow : (f c s.io).1.waits = false := by
    rw [hnot] at hle
    simpa using hle
  exact withCon_underway h hi hn (underway_of_not_waits hnow) (Prod.ext hq.same.1 hq.same.2) hsegs

theorem ipTcpDisconnect_underway (h : s.AllUnderway) (hi : s.net.bindings[i]? = some b) (hn : NamesCon rq b c)
    (htaken : DisconnectTaken w c s.io) : (withCon rq i b s (ipTcpDisconnect w)).AllUnderway := by
  obtain ⟨hr, hs, h1, h2⟩ := htaken
  have hmild := @ipTcpDisconnect_mild w s.io c
  refine withCon_underway h hi hn ?_ (Prod.ext hmild.same.1 hmild.same.2) hmild.segments
  unfold ipTcpDisconnect
  rw [if_neg (not_not.mpr hr)]
  dsimp only
  rw [if_pos (.inl hs), addPkt_of_alloc h1]
  exact sendTcpPkt_established hs fun _ => h2

theorem ipReadUdpReq_underway (h : s.AllUnderway) (hi : s.net.bindings[i]? = some b) :
    (ipReadUdpReq w rq i b s).AllUnderway := by
  unfold ipReadUdpReq
  split
  · rename_i io hm
    exact h.withIo (replyCap_segments.trans (frameMapAnywhere_segments hm))
  · rename_i cap io hm
    have hsame : ((ipReadUdp rq.len b).2.id, (ipReadUdp rq.len b).2.tcp) = (b.id, b.tcp) := by
      unfold ipReadUdp
      split
      · rfl
      · dsimp only
        split_ifs <;> rfl
    have hio : ({ s with io := (io.unmapAddr w cap).replyCap b.procId } : Server).AllUnderway :=
      h.withIo (replyCap_segments.trans (unmapAddr_segments.trans (frameMapAnywhere_segments hm)))
    exact hio.congr (map_set_same hi hsame)

theorem ipWriteUdp_underway (h : s.AllUnderway) : (ipWriteUdp w rq b s).AllUnderway := by
  unfold ipWriteUdp
  split
  · rename_i io hm
    exact h.withIo (frameMapAnywhere_segments hm)
  · rename_i cap io hm
    have hsegs : io.next.segments = s.io.segments := by
      show io.segments = s.io.segments
      exact frameMapAnywhere_segments hm
    split_ifs
    · have hnext : ({ s with io := io.next } : Server).AllUnderway := h.withIo hsegs
      unfold arpRequest
      split
      · exact hnext.withIo udpWriteFinish_segments
      · split_ifs
        · exact hnext.withIo rfl
        · exact hnext.withIo rfl
        · exact hnext.mono rfl le_rfl (fun _ hr => List.mem_cons_of_mem _ hr) fun _ hf => hf
    · exact h.withIo hsegs

theorem netHandleMessage_underway (h : s.AllUnderway) (ha : Asked pid s) (htaken : RequestTaken w pid rq s) :
    (netHandleMessage w pid rq s).AllUnderway := by
  unfold netHandleMessage
  rcases htaken with ht | ⟨ht, -⟩ | ⟨ht, b, hn, hproto, -⟩ | ⟨ht, b, hn, hproto, hcon⟩ |
    ⟨ht, b, hn, hproto, c, hc, hdis⟩ | ⟨ht, b, hn, hcase⟩ | ⟨ht, b, hn, hcase⟩
  · rw [if_pos ht]
    exact handleBind_underway h
  · rw [if_neg (by rw [ht]; decide), if_pos ht]
    exact handleUnbind_underway h
  · rw [if_neg (by rw [ht]; decide), if_neg (by rw [ht]; decide), if_pos ht]
    unfold handleTcpListen
    obtain ⟨i, hi, -, he⟩ := @withBinding_of_names s pid b rq
      (fun i b s => if b.proto = protoTcp then ipTcpListen w i b s else s) hn
    rw [he, if_pos hproto]
    exact ipTcpListen_underway h hi
  · rw [if_neg (by rw [ht]; decide), if_neg (by rw [ht]; decide), if_neg (by rw [ht]; decide), if_pos ht]
    unfold handleTcpConnect
    obtain ⟨i, hi, -, he⟩ := @withBinding_of_names s pid b rq
      (fun i b s => if b.proto = protoTcp then ipTcpConnect w rq i b s else s) hn
    rw [he, if_pos hproto]
    exact ipTcpConnect_underway h hi hcon
  · rw [if_neg (by rw [ht]; decide), if_neg (by rw [ht]; decide), if_neg (by rw [ht]; decide),
      if_neg (by rw [ht]; decide), if_pos ht]
    unfold handleTcpDisconnect
    obtain ⟨i, hi, -, he⟩ := @withBinding_of_names s pid b rq
      (fun i b s => if b.proto = protoTcp then withCon rq i b s (ipTcpDisconnect w) else s) hn
    rw [he, if_pos hproto]
    exact ipTcpDisconnect_underway h hi hc hdis
  · rw [if_neg (by rw [ht]; decide), if_neg (by rw [ht]; decide), if_neg (by rw [ht]; decide),
      if_neg (by rw [ht]; decide), if_neg (by rw [ht]; decide), if_pos ht]
    unfold handleRead
    obtain ⟨i, hi, hpid, he⟩ := @withBinding_of_names s pid b rq (fun i b s =>
      if b.proto = protoUdp then ipReadUdpReq w rq i b s
      else if b.proto = protoTcp then withCon rq i b s fun c io => (ipReadTcpReq w b.procId rq c io).2 else s) hn
    rw [he]
    rcases hcase with hu | ⟨htcp, c, hc, -⟩
    · rw [if_pos hu]
      exact ipReadUdpReq_underway h hi
    · rw [if_neg (by rw [htcp]; decide), if_pos htcp, hpid]
      exact withCon_quiet_underway h ha hi hpid hc (ipReadTcpReq_spec ha.serving)
  · rw [if_neg (by rw [ht]; decide), if_neg (by rw [ht]; decide), if_neg (by rw [ht]; decide),
      if_neg (by rw [ht]; decide), if_neg (by rw [ht]; decide), if_neg (by rw [ht]; decide), if_pos ht]
    unfold handleWrite
    obtain ⟨i, hi, hpid, he⟩ := @withBinding_of_names s pid b rq (fun i b s =>
      if b.proto = protoUdp then ipWriteUdp w rq b s
      else if b.proto = protoTcp then withCon rq i b s (ipWriteTcp w b.procId rq) else s) hn
    rw [he]
    rcases hcase with ⟨hu, -⟩ | ⟨htcp, c, hc, -⟩
    · rw [if_pos hu]
      exact ipWriteUdp_underway h
    · rw [if_neg (by rw [htcp]; decide), if_pos htcp, hpid]
      exact withCon_quiet_underway h ha hi hpid hc (ipWriteTcp_spec ha.serving)

theorem frames_underway {pkts : List (List UInt8)} (h : s.AllUnderway) (hs : s.Settled) (hslot : s.io.slot = none)
    (hf : FramesTaken heap w pkts s) : (pkts.foldl (fun s pkt => s.netProcessPkt heap w pkt) s).AllUnderway := by
  induction pkts generalizing s with
  | nil => exact h
  | cons pkt pkts ih =>
    obtain ⟨hfirst, hrest⟩ := hf
    obtain ⟨h1, h2⟩ := @netProcessPkt_spec w s pkt heap hs hslot
    exact ih (netProcessPkt_underway h hs hfirst) h1 h2 hrest

theorem NetEvent.run_answered {e : NetEvent} (h : s.Answered) (hs : s.Settled) (hposs : e.Possible s)
    (htaken : e.Taken w s) : (e.run w s).Answered := by
  by_cases hslot : s.io.slot = none
  · cases e with
    | message pid give rq =>
      rw [run_message hslot]
      exact netHandleMessage_answered (asked_received h hs hposs) (htaken hslot)
    | frames heap pkts =>
      rw [run_frames hslot]
      exact frames_answered h hs hslot (htaken hslot)
  · rw [NetEvent.run_stuck hslot]
    exact h

theorem NetEvent.run_underway {e : NetEvent} (h : s.AllUnderway) (ha : s.Answered) (hs : s.Settled)
    (hposs : e.Possible s) (htaken : e.Taken w s) : (e.run w s).AllUnderway := by
  by_cases hslot : s.io.slot = none
  · cases e with
    | message pid give rq =>
      rw [run_message hslot]
      have hrecv : (s.received pid give).AllUnderway := h.withIo rfl
      exact netHandleMessage_underway hrecv (asked_received ha hs hposs) (htaken hslot)
    | frames heap pkts =>
      rw [run_frames hslot]
      exact frames_underway h hs hslot (htaken hslot)
  · rw [NetEvent.run_stuck hslot]
    exact h

theorem NetRun.answered (run : NetRun (fun w s e => e.Taken w s) s) : s.Answered ∧ s.AllUnderway := by
  induction run with
  | start initial =>
    constructor
    · intro pid
      rw [initial.bindings, initial.requests, initial.waiting]
      rfl
    · refine ⟨?_, ?_, ?_, ?_⟩
      · rw [initial.bindings]
        exact fun b hb => by cases hb
      · rw [initial.bindings]
        exact List.nodup_nil
      · rw [initial.bindings]
        exact fun b hb => by cases hb
      · rw [initial.bindings]
        exact fun b hb => by cases hb
  | turn run possible hcond ih =>
    exact ⟨NetEvent.run_answered ih.1 run.settled possible hcond,
      NetEvent.run_underway ih.2 ih.1 run.settled possible hcond⟩

/-- In runs whose requests are taken no client is left with nothing: each one that is still blocked has
exactly one thing kept for it that ends with its reply, and the others have none. What is kept has gone out
to who is to answer it, or will when its address is known. -/
theorem requests_answered (run : NetRun (fun w s e => e.Taken w s) s) :
    (∀ pid, pendingOf pid s.net.bindings s.arpRequests = (if ∃ p ∈ s.io.waiting, p.pid = pid then 1 else 0)) ∧
      s.AllUnderway := by
  obtain ⟨hall, hunder⟩ := run.answered
  refine ⟨fun pid => ?_, hunder⟩
  have hone := run.settled.once pid
  rw [hall pid]
  split_ifs with h
  · obtain ⟨p, hp, hpid⟩ := h
    have hpos : 0 < waitsOf pid s.io.waiting := List.countP_pos_iff.mpr ⟨p, hp, by simpa using hpid⟩
    omega
  · by_contra hne
    exact h (exists_of_waitsOf_pos (Nat.pos_of_ne_zero hne))

def tcpBind : NetEvent := .message 7 none
  { type := netBind, chanId := 0, proto := protoTcp, portLoc := 5000, addrRem := [], portRem := 0, conId := 0, len := 0 }

def tcpConnect : NetEvent := .message 7 none
  { type := netTcpConnect, chanId := 321, proto := 0, portLoc := 0, addrRem := [192, 168, 10, 1], portRem := 80
    conId := 0, len := 0 }

def connecting : Server := tcpConnect.run allWork (tcpBind.run allWork deviceServer)

theorem requests_answered_one :
    (∀ s, s = connecting ∨ s = arpReply.run allWork connecting → pendingOf 7 s.net.bindings s.arpRequests = 1) ∧
    connecting.io.segments = [] ∧ (arpReply.run allWork connecting).io.segments =
      [{ binding := 321, con := 0, addrRem := [192, 168, 10, 1], portRem := 80, seq := 0x1000, ack := 0
         flags := tcpFlagSyn, len := 0 }] := by
  have hbind : NetRun (fun w s e => e.Taken w s) (tcpBind.run allWork deviceServer) :=
    (NetRun.start deviceServer_initial).turn (fun p hp => by cases hp) fun _ => .inl rfl
  have hconnect : NetRun (fun w s e => e.Taken w s) connecting := by
    refine hbind.turn (fun p hp => by cases hp) fun _ => ?_
    exact .inr (.inr (.inr (.inl ⟨rfl, _, ⟨0, rfl, rfl⟩, rfl, rfl, rfl, rfl, fun _ => rfl⟩)))
  have hreply : NetRun (fun w s e => e.Taken w s) (arpReply.run allWork connecting) := by
    refine hconnect.turn trivial fun _ => ⟨?_, trivial⟩
    unfold FrameTaken
    rw [if_pos (by decide)]
    exact fun _ _ _ _ => rfl
  refine ⟨?_, by decide +kernel, by decide +kernel⟩
  rintro s (rfl | rfl)
  · rw [(requests_answered hconnect).1 7]
    exact if_pos ⟨⟨7, false⟩, by decide +kernel, rfl⟩
  · rw [(requests_answered hreply).1 7]
    exact if_pos ⟨⟨7, false⟩, by decide +kernel, rfl⟩

def unbindReq : NetEvent := .message 7 none
  { type := netUnbind, chanId := 5, proto := 0, portLoc := 0, addrRem := [], portRem := 0, conId := 0, len := 0 }

theorem request_dropped : NetRun (fun _ _ _ => True) (unbindReq.run allWork deviceServer) ∧
    (unbindReq.run allWork deviceServer).io.replied = [] ∧
    waitsOf 7 (unbindReq.run allWork deviceServer).io.waiting = 1 ∧
    pendingOf 7 (unbindReq.run allWork deviceServer).net.bindings (unbindReq.run allWork deviceServer).arpRequests = 0 ∧
    ¬ (unbindReq.run allWork deviceServer).Answered := by
  have hposs : unbindReq.Possible deviceServer := fun p hp => by cases hp
  refine ⟨(NetRun.start deviceServer_initial).turn hposs trivial, rfl, rfl, rfl, ?_⟩
  intro h
  exact absurd (h 7) (by decide +kernel)

end Answered

end Agatha.Net
