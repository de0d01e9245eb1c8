import Mathlib.Algebra.Group.Nat.Defs
import Mathlib.Data.List.Basic
import Mathlib.Data.List.Infix

/-!
How a TCP connection takes in segments and hands them to readers (`lib/net/tcp.c`), while it is
established. Only what the receiving side reads and writes of a connection is kept, and memory is
always there.
-/

namespace Agatha.Net

structure TcpPkt where
  seq : ℕ
  data : List UInt8
  deriving DecidableEq

def TcpPkt.len (p : TcpPkt) : ℕ := p.data.length

structure TcpCon where
  ack : ℕ
  closing : Bool
  offsetIntoWaiting : ℕ
  recvWait : List TcpPkt

/-- The loop of `insert_received` over the waiting packets, and where it puts `t`. There is no result
when the packet is already there. -/
def insertWalk (t : TcpPkt) : Bool → ℕ → List TcpPkt → Option (List TcpPkt)
  | _, _, [] => some [t]
  | gap, contSeq, o :: next =>
    if contSeq ≥ o.seq then (insertWalk t gap contSeq next).map (o :: ·)
    else
      let contSeq' := if gap = false ∧ contSeq = o.seq then (contSeq + o.len) % 2 ^ 32 else contSeq
      let gap := if gap = false ∧ contSeq = o.seq then gap else true
      if t.seq = o.seq then none
      else if t.seq < o.seq then some (t :: o :: next)
      else (insertWalk t gap contSeq' next).map (o :: ·)

def insertReceived (t : TcpPkt) (c : TcpCon) : TcpCon :=
  match insertWalk t false c.ack c.recvWait with
  | none => c
  | some l => { c with recvWait := l }

def handleTcpAck (t : TcpPkt) (c : TcpCon) : TcpCon :=
  if c.ack < (t.seq + t.len) % 2 ^ 32 then insertReceived t c
  else c

/-- The loop of `ip_read_tcp`, with `want` bytes still to be read. -/
def readLoop : List TcpPkt → ℕ → ℕ → ℕ → List UInt8 × List TcpPkt × ℕ × ℕ
  | [], o, contAck, _ => ([], [], o, contAck)
  | p :: next, o, contAck, want =>
    if want = 0 ∨ p.seq ≠ contAck then ([], p :: next, o, contAck)
    else
      let l := min want (p.len - o)
      -- when the packet is not read to its end, the request is full
      if o + l < p.len then ((p.data.drop o).take l, p :: next, o + l, contAck)
      else
        let (data, rest) := readLoop next 0 ((contAck + l) % 2 ^ 32) (want - l)
        ((p.data.drop o).take l ++ data, rest)

def ipReadTcp (len : ℕ) (c : TcpCon) : List UInt8 × TcpCon :=
  let (data, recvWait, o, contAck) := readLoop c.recvWait c.offsetIntoWaiting c.ack len
  let ack := if c.ack < contAck then contAck else c.ack
  let ack := if c.closing = true ∧ recvWait = [] then (ack + 1) % 2 ^ 32 else ack
  (data, { c with ack := ack, offsetIntoWaiting := o, recvWait := recvWait })

structure Peer where
  isn : ℕ
  segs : List (List UInt8)

def Peer.stream (peer : Peer) : List UInt8 := peer.segs.flatten

def Peer.offset (peer : Peer) (j : ℕ) : ℕ := (peer.segs.take j).flatten.length

def Peer.pkt (peer : Peer) (j : ℕ) : TcpPkt :=
  { seq := peer.isn + peer.offset j, data := peer.segs.getD j [] }

inductive TcpStep
  | arrive (j : ℕ)
  | read (len : ℕ)

structure Reading where
  data : List UInt8
  last : ℕ
  con : TcpCon

def taken (c c' : TcpCon) : List TcpPkt := c.recvWait.take (c.recvWait.length - c'.recvWait.length)

def TcpStep.run (peer : Peer) (r : Reading) : TcpStep → Reading
  | .arrive j => { r with con := handleTcpAck (peer.pkt j) r.con }
  | .read len =>
    let (data, c) := ipReadTcp len r.con
    { data := r.data ++ data, con := c
      last := match (taken r.con c).getLast? with
        | none => r.last
        | some p => p.seq + p.len }

/-- Runs of a connection since it was established, in which each step meets `cond`. -/
inductive TcpRun (peer : Peer) (cond : TcpCon → TcpStep → Prop) : Reading → Prop
  | start : TcpRun peer cond
      { data := [], last := peer.isn
        con := { ack := peer.isn, closing := false, offsetIntoWaiting := 0, recvWait := [] } }
  | step {r : Reading} {s : TcpStep} (run : TcpRun peer cond r) (hcond : cond r.con s)
      (hs : ∀ j, s = .arrive j → j < peer.segs.length) : TcpRun peer cond (s.run peer r)

def TcpStep.Whole (c : TcpCon) : TcpStep → Prop
  | .arrive _ => True
  | .read len => c.offsetIntoWaiting = 0 ∨
      ∀ p, c.recvWait.head? = some p → c.offsetIntoWaiting + len < p.len

variable {peer : Peer} {cond : TcpCon → TcpStep → Prop} {r : Reading} {c : TcpCon} {t p : TcpPkt}
variable {l l' : List TcpPkt} {j : ℕ}

theorem insertWalk_mem {gap : Bool} {contSeq : ℕ} (h : insertWalk t gap contSeq l = some l') :
    ∀ p ∈ l', p = t ∨ p ∈ l := by
  induction l generalizing gap contSeq l' with
  | nil =>
    cases h
    intro p hp
    exact .inl (List.mem_singleton.mp hp)
  | cons o next ih =>
    have hrec : ∀ {gap contSeq}, (insertWalk t gap contSeq next).map (o :: ·) = some l' →
        ∀ p ∈ l', p = t ∨ p ∈ o :: next := by
      intro gap contSeq hmap p hp
      obtain ⟨l₁, hw, rfl⟩ := Option.map_eq_some_iff.mp hmap
      rcases List.mem_cons.mp hp with rfl | hp
      · exact .inr List.mem_cons_self
      · exact (ih hw p hp).imp_right (List.mem_cons_of_mem _)
    unfold insertWalk at h
    dsimp only at h
    split_ifs at h with hskip
    · exact hrec h
    all_goals first
      | (cases h
         intro p hp
         exact List.mem_cons.mp hp)
      | exact hrec h

theorem insertWalk_head {gap : Bool} {contSeq : ℕ} (hp : p.seq ≤ contSeq)
    (h : insertWalk t gap contSeq (p :: l) = some l') : l'.head? = some p := by
  unfold insertWalk at h
  rw [if_pos hp] at h
  obtain ⟨l₁, -, rfl⟩ := Option.map_eq_some_iff.mp h
  rfl

theorem Peer.stream_split (hj : j < peer.segs.length) : peer.stream =
    (peer.segs.take j).flatten ++ ((peer.pkt j).data ++ (peer.segs.drop (j + 1)).flatten) := by
  have hget : peer.segs.getD j [] = peer.segs[j] := by simp [hj]
  unfold Peer.stream Peer.pkt
  rw [hget, ← List.flatten_cons, List.getElem_cons_drop, ← List.flatten_append, List.take_append_drop]

theorem Peer.offset_succ (hj : j < peer.segs.length) :
    peer.offset (j + 1) = peer.offset j + (peer.pkt j).len := by
  unfold Peer.offset Peer.pkt TcpPkt.len
  rw [List.take_succ_eq_append_getElem hj, List.flatten_append, List.length_append]
  simp [hj]

theorem Peer.offset_mono {i : ℕ} (h : i ≤ j) : peer.offset i ≤ peer.offset j := by
  obtain ⟨rest, hrest⟩ : peer.segs.take i <+: peer.segs.take j := List.take_prefix_take_left h
  unfold Peer.offset
  rw [← hrest, List.flatten_append, List.length_append]
  exact Nat.le_add_right ..

theorem Peer.pkt_end_le (hj : j < peer.segs.length) :
    peer.offset j + (peer.pkt j).len ≤ peer.stream.length := by
  rw [Peer.stream_split hj, List.length_append, List.length_append]
  unfold Peer.offset TcpPkt.len
  omega

theorem Peer.take_pkt {n : ℕ} (hj : j < peer.segs.length) (hn : n ≤ (peer.pkt j).len) :
    peer.stream.take (peer.offset j + n) =
      peer.stream.take (peer.offset j) ++ (peer.pkt j).data.take n := by
  have hlen : (peer.segs.take j).flatten.length = peer.offset j := rfl
  rw [Peer.stream_split hj, ← hlen, List.take_left, List.take_length_add_append, List.take_append_of_le_length hn]

theorem Peer.offset_ne {i n : ℕ} (hj : j < peer.segs.length) (h0 : 0 < n) (hn : n < (peer.pkt j).len) :
    peer.offset i ≠ peer.offset j + n := by
  rcases Nat.lt_or_ge j i with hlt | hle
  · have h1 : peer.offset (j + 1) ≤ peer.offset i := Peer.offset_mono hlt
    rw [Peer.offset_succ hj] at h1
    omega
  · have h1 : peer.offset i ≤ peer.offset j := Peer.offset_mono hle
    omega

def FromPeer (peer : Peer) (l : List TcpPkt) : Prop := ∀ p ∈ l, ∃ j < peer.segs.length, p = peer.pkt j

def Unfinished (l : List TcpPkt) (o ack : ℕ) : Prop :=
  o ≠ 0 → ∃ p, l.head? = some p ∧ p.seq = ack ∧ o < p.len

structure Aligned (peer : Peer) (data : List UInt8) (l : List TcpPkt) (o ack a : ℕ) : Prop where
  ack_eq : ack = peer.isn + a
  le : a + o ≤ peer.stream.length
  data : data = peer.stream.take (a + o)
  unfinished : Unfinished l o ack

theorem readLoop_aligned {data : List UInt8} {a : ℕ} (want : ℕ)
    (hseq : peer.isn + peer.stream.length < 2 ^ 32) (hl : FromPeer peer l)
    (h : Aligned peer data l 0 (peer.isn + a) a) :
    ∃ d l' o a' front, readLoop l 0 (peer.isn + a) want = (d, l', o, peer.isn + a') ∧
      Aligned peer (data ++ d) l' o (peer.isn + a') a' ∧ l = front ++ l' ∧ a ≤ a' ∧
      (front = [] → a' = a) ∧ ∀ p, front.getLast? = some p → peer.isn + a' = p.seq + p.len := by
  induction l generalizing data a want with
  | nil =>
    refine ⟨[], [], 0, a, [], rfl, ?_, rfl, Nat.le_refl a, fun _ => rfl, fun p hp => by cases hp⟩
    rwa [List.append_nil]
  | cons p next ih =>
    unfold readLoop
    split_ifs with hstop
    · refine ⟨[], p :: next, 0, a, [], rfl, ?_, rfl, Nat.le_refl a, fun _ => rfl, fun p hp => by cases hp⟩
      rwa [List.append_nil]
    · obtain ⟨hwant, hpseq⟩ := not_or.mp hstop
      obtain ⟨j, hj, rfl⟩ := hl _ List.mem_cons_self
      have ha : peer.offset j = a := by
        have hpa : peer.isn + peer.offset j = peer.isn + a := not_not.mp hpseq
        omega
      subst ha
      have hend := peer.pkt_end_le hj
      dsimp only
      rw [Nat.sub_zero, List.drop_zero, Nat.zero_add]
      split_ifs with hpart
      · have hmin : min want (peer.pkt j).len = want := by omega
        rw [hmin] at hpart ⊢
        refine ⟨_, _, _, peer.offset j, [], rfl, ⟨rfl, by omega, ?_, fun _ => ⟨_, rfl, rfl, hpart⟩⟩, rfl,
          Nat.le_refl _, fun _ => rfl, fun p hp => by cases hp⟩
        rw [h.data, Nat.add_zero, ← Peer.take_pkt hj (by omega)]
      · have hmin : min want (peer.pkt j).len = (peer.pkt j).len := by omega
        have hwhole : (peer.pkt j).data.take (peer.pkt j).len = (peer.pkt j).data := List.take_length ..
        have hnowrap : (peer.isn + peer.offset j + (peer.pkt j).len) % 2 ^ 32 =
            peer.isn + (peer.offset j + (peer.pkt j).len) := by
          rw [Nat.mod_eq_of_lt (by omega)]
          omega
        rw [hmin, hwhole, hnowrap]
        have hnext : Aligned peer (data ++ (peer.pkt j).data) next 0
            (peer.isn + (peer.offset j + (peer.pkt j).len)) (peer.offset j + (peer.pkt j).len) := by
          refine ⟨rfl, by omega, ?_, fun h0 => absurd rfl h0⟩
          rw [h.data, Nat.add_zero, Nat.add_zero, Peer.take_pkt hj (Nat.le_refl _), hwhole]
        obtain ⟨d, l', o, a', front, hloop, hal, hfront, hle, hnone, hlast⟩ :=
          ih (want - (peer.pkt j).len) (fun q hq => hl q (List.mem_cons_of_mem _ hq)) hnext
        rw [hloop]
        refine ⟨_, l', o, a', peer.pkt j :: front, rfl, ?_, by rw [hfront]; rfl, by omega,
          fun he => (by cases he), fun q hq => ?_⟩
        · rwa [List.append_assoc] at hal
        · cases front with
          | nil =>
            cases hq
            rw [hnone rfl]
            exact (Nat.add_assoc _ _ _).symm
          | cons f front => exact hlast q hq

theorem Aligned.begun {data : List UInt8} {a o : ℕ} (h : Aligned peer data l o (peer.isn + a) a)
    (hl : FromPeer peer l) (ho : o ≠ 0) : ∃ j next, l = peer.pkt j :: next ∧ a = peer.offset j ∧
      j < peer.segs.length ∧ o < (peer.pkt j).len ∧ (peer.pkt j).seq = peer.isn + peer.offset j := by
  obtain ⟨p, hp, hpseq, hpo⟩ := h.unfinished ho
  cases l with
  | nil => cases hp
  | cons q next =>
    obtain rfl : q = p := Option.some.inj hp
    obtain ⟨j, hj, rfl⟩ := hl _ List.mem_cons_self
    have ha : a = peer.offset j := by
      have hpa : peer.isn + peer.offset j = peer.isn + a := hpseq
      omega
    exact ⟨j, next, rfl, ha, hj, hpo, rfl⟩

theorem readLoop_unaligned {data : List UInt8} {a o : ℕ} (want : ℕ) (hl : FromPeer peer l) (ho : o ≠ 0)
    (hseq : peer.isn + peer.stream.length < 2 ^ 32)
    (h : Aligned peer data l o (peer.isn + a) a) (hwant : ∀ p, l.head? = some p → ¬o + want < p.len) :
    ∃ d l' n, readLoop l o (peer.isn + a) want = (d, l', 0, peer.isn + a + n) ∧
      data ++ d <+: peer.stream ∧ (∀ i, peer.offset i ≠ a + n) ∧ l' <:+ l := by
  obtain ⟨j, next, rfl, rfl, hj, hpo, hpseq⟩ := h.begun hl ho
  have hfull := hwant _ rfl
  have hend := peer.pkt_end_le hj
  have hmin : min want ((peer.pkt j).len - o) = (peer.pkt j).len - o := by omega
  have hrest : ((peer.pkt j).data.drop o).take ((peer.pkt j).len - o) = (peer.pkt j).data.drop o :=
    List.take_of_length_le (by rw [List.length_drop]; rfl)
  have hne : ∀ i, peer.offset i ≠ peer.offset j + ((peer.pkt j).len - o) :=
    fun i => peer.offset_ne hj (by omega) (by omega)
  have hstop : ∀ want, readLoop next 0 (peer.isn + peer.offset j + ((peer.pkt j).len - o)) want =
      ([], next, 0, peer.isn + peer.offset j + ((peer.pkt j).len - o)) := by
    intro want
    cases next with
    | nil => rfl
    | cons f next =>
      unfold readLoop
      rw [if_pos]
      right
      obtain ⟨i, hi, rfl⟩ := hl f (List.mem_cons_of_mem _ List.mem_cons_self)
      intro he
      have he' : peer.isn + peer.offset i = _ := he
      exact hne i (by omega)
  refine ⟨(peer.pkt j).data.drop o, next, (peer.pkt j).len - o, ?_, ?_, hne, List.suffix_cons _ _⟩
  · unfold readLoop
    rw [if_neg (not_or.mpr ⟨by omega, not_not.mpr hpseq⟩)]
    dsimp only
    rw [hmin, if_neg (by omega), hrest, Nat.mod_eq_of_lt (by omega), hstop]
    simp
  · have hbytes : peer.stream.take (peer.offset j + o) ++ (peer.pkt j).data.drop o =
        peer.stream.take (peer.offset j + (peer.pkt j).len) := by
      rw [Peer.take_pkt hj (Nat.le_of_lt hpo), Peer.take_pkt hj (Nat.le_refl _), List.append_assoc,
        List.take_append_drop]
      congr 1
      exact (List.take_length ..).symm
    rw [h.data, hbytes]
    exact List.take_prefix _ _

theorem readLoop_inside {data : List UInt8} {a o : ℕ} (want : ℕ) (hl : FromPeer peer l) (ho : o ≠ 0)
    (h : Aligned peer data l o (peer.isn + a) a) (hwant : ∀ p, l.head? = some p → o + want < p.len) :
    ∃ d, readLoop l o (peer.isn + a) want = (d, l, o + want, peer.isn + a) ∧
      Aligned peer (data ++ d) l (o + want) (peer.isn + a) a := by
  obtain ⟨j, next, rfl, rfl, hj, hpo, hpseq⟩ := h.begun hl ho
  have hpart := hwant _ rfl
  have hend := peer.pkt_end_le hj
  have hbytes : peer.stream.take (peer.offset j + o) ++ ((peer.pkt j).data.drop o).take want =
      peer.stream.take (peer.offset j + (o + want)) := by
    rw [Peer.take_pkt hj (Nat.le_of_lt hpo), Peer.take_pkt hj (Nat.le_of_lt hpart), List.append_assoc,
      List.take_add]
  refine ⟨((peer.pkt j).data.drop o).take want, ?_, rfl, by omega, ?_, fun _ => ⟨_, rfl, rfl, hpart⟩⟩
  · unfold readLoop
    by_cases hz : want = 0
    · rw [if_pos (.inl hz), hz, List.take_zero, Nat.add_zero]
    · rw [if_neg (not_or.mpr ⟨hz, not_not.mpr hpseq⟩)]
      dsimp only
      have hmin : min want ((peer.pkt j).len - o) = want := by omega
      rw [hmin, if_pos hpart]
  · rw [h.data, hbytes]

structure Stuck (peer : Peer) (data : List UInt8) (o ack : ℕ) : Prop where
  offset : o = 0
  ack : ∀ i, peer.isn + peer.offset i ≠ ack
  data : data <+: peer.stream

structure Kept (peer : Peer) (r : Reading) : Prop where
  closing : r.con.closing = false
  waiting : FromPeer peer r.con.recvWait
  state : (∃ a, Aligned peer r.data r.con.recvWait r.con.offsetIntoWaiting r.con.ack a) ∨
    Stuck peer r.data r.con.offsetIntoWaiting r.con.ack

theorem Kept.prefix_stream (h : Kept peer r) : r.data <+: peer.stream := by
  rcases h.state with ⟨a, ha⟩ | hs
  · rw [ha.data]
    exact List.take_prefix _ _
  · exact hs.data

theorem insertReceived_cases : insertReceived t c = c ∨
    ∃ l, insertWalk t false c.ack c.recvWait = some l ∧ insertReceived t c = { c with recvWait := l } := by
  unfold insertReceived
  cases h : insertWalk t false c.ack c.recvWait with
  | none => exact .inl rfl
  | some l => exact .inr ⟨l, rfl, rfl⟩

theorem handleTcpAck_cases : handleTcpAck t c = c ∨
    ∃ l, insertWalk t false c.ack c.recvWait = some l ∧ handleTcpAck t c = { c with recvWait := l } := by
  unfold handleTcpAck
  split_ifs
  · exact insertReceived_cases
  · exact .inl rfl

theorem Aligned.arrive {data : List UInt8} {o ack a : ℕ} (h : Aligned peer data l o ack a)
    (hw : insertWalk t false ack l = some l') : Aligned peer data l' o ack a := by
  refine ⟨h.ack_eq, h.le, h.data, fun ho => ?_⟩
  obtain ⟨p, hp, hpseq, hpo⟩ := h.unfinished ho
  cases l with
  | nil => cases hp
  | cons q next =>
    obtain rfl : q = p := Option.some.inj hp
    exact ⟨q, insertWalk_head (Nat.le_of_eq hpseq) hw, hpseq, hpo⟩

theorem run_arrive : (TcpStep.arrive j).run peer r = { r with con := handleTcpAck (peer.pkt j) r.con } :=
  rfl

theorem Kept.arrive (h : Kept peer r) (hj : j < peer.segs.length) :
    Kept peer ((TcpStep.arrive j).run peer r) := by
  rw [run_arrive]
  rcases handleTcpAck_cases (t := peer.pkt j) (c := r.con) with he | ⟨l, hw, he⟩
  · rw [he]
    exact h
  · rw [he]
    refine ⟨h.closing, fun p hp => ?_, h.state.imp_left fun ⟨a, ha⟩ => ⟨a, ha.arrive hw⟩⟩
    rcases insertWalk_mem hw p hp with rfl | hp
    · exact ⟨j, hj, rfl⟩
    · exact h.waiting p hp

theorem ipReadTcp_eq {len : ℕ} {d : List UInt8} {o cont : ℕ} (hc : c.closing = false)
    (h : readLoop c.recvWait c.offsetIntoWaiting c.ack len = (d, l, o, cont)) (hle : c.ack ≤ cont) :
    ipReadTcp len c = (d, { c with ack := cont, offsetIntoWaiting := o, recvWait := l }) := by
  unfold ipReadTcp
  rw [h]
  dsimp only
  have hack : (if c.ack < cont then cont else c.ack) = cont := by
    split_ifs
    · rfl
    · omega
  rw [hack, hc, if_neg fun hf => Bool.false_ne_true hf.1]

theorem taken_append {front : List TcpPkt} {c' : TcpCon} (h : c.recvWait = front ++ c'.recvWait) :
    taken c c' = front := by
  unfold taken
  rw [h, List.length_append, Nat.add_sub_cancel, List.take_left]

theorem FromPeer.suffix (h : FromPeer peer l) (hs : l' <:+ l) : FromPeer peer l' :=
  fun p hp => h p (hs.subset hp)

theorem run_read {len : ℕ} {d : List UInt8} {c' : TcpCon} (h : ipReadTcp len r.con = (d, c')) :
    (TcpStep.read len).run peer r =
      { data := r.data ++ d, con := c'
        last := match (taken r.con c').getLast? with
          | none => r.last
          | some p => p.seq + p.len } := by
  unfold TcpStep.run
  dsimp only
  rw [h]

theorem Kept.read_cases {a : ℕ} (len : ℕ) (hseq : peer.isn + peer.stream.length < 2 ^ 32)
    (h : Kept peer r)
    (ha : Aligned peer r.data r.con.recvWait r.con.offsetIntoWaiting r.con.ack a) :
    ∃ d c', ipReadTcp len r.con = (d, c') ∧ c'.closing = false ∧ c'.recvWait <:+ r.con.recvWait ∧
      ((∃ a', Aligned peer (r.data ++ d) c'.recvWait c'.offsetIntoWaiting c'.ack a' ∧
          (taken r.con c' = [] → c'.ack = r.con.ack) ∧
          ∀ p, (taken r.con c').getLast? = some p → c'.ack = p.seq + p.len) ∨
        ¬(TcpStep.read len).Whole r.con ∧ Stuck peer (r.data ++ d) c'.offsetIntoWaiting c'.ack) := by
  have hack := ha.ack_eq
  by_cases ho : r.con.offsetIntoWaiting = 0
  · rw [ho, hack] at ha
    obtain ⟨d, l', o, a', front, hloop, hal, hfront, hle, hnone, hlast⟩ :=
      readLoop_aligned len hseq h.waiting ha
    rw [← hack, ← ho] at hloop
    refine ⟨d, _, ipReadTcp_eq h.closing hloop (by omega), h.closing, ⟨front, hfront.symm⟩, .inl ⟨a', hal, ?_⟩⟩
    rw [taken_append hfront]
    exact ⟨fun hf => by rw [hnone hf, hack], hlast⟩
  · rw [hack] at ha
    by_cases hin : ∀ p, r.con.recvWait.head? = some p → r.con.offsetIntoWaiting + len < p.len
    · obtain ⟨d, hloop, hal⟩ := readLoop_inside len h.waiting ho ha hin
      rw [← hack] at hloop hal
      refine ⟨d, _, ipReadTcp_eq h.closing hloop (Nat.le_refl _), h.closing, List.suffix_refl _,
        .inl ⟨a, hal, ?_⟩⟩
      have htaken : taken r.con { r.con with offsetIntoWaiting := r.con.offsetIntoWaiting + len } = [] :=
        taken_append rfl
      rw [htaken]
      exact ⟨fun _ => rfl, fun p hp => by cases hp⟩
    · have hend : ∀ p, r.con.recvWait.head? = some p → ¬r.con.offsetIntoWaiting + len < p.len := by
        intro p hp hlt
        refine hin fun q hq => ?_
        rw [hp] at hq
        cases hq
        exact hlt
      obtain ⟨d, l', n, hloop, hpre, hne, hsuf⟩ := readLoop_unaligned len h.waiting ho hseq ha hend
      rw [← hack] at hloop
      refine ⟨d, _, ipReadTcp_eq h.closing hloop (Nat.le_add_right _ _), h.closing, hsuf, .inr ⟨?_, rfl, ?_, hpre⟩⟩
      · rintro (h0 | hw)
        · exact ho h0
        · exact hin hw
      · intro i
        have := hne i
        dsimp only
        omega

theorem readLoop_stuck {o ack : ℕ} (want : ℕ) (hl : FromPeer peer l)
    (hne : ∀ i, peer.isn + peer.offset i ≠ ack) : readLoop l o ack want = ([], l, o, ack) := by
  cases l with
  | nil => rfl
  | cons p next =>
    unfold readLoop
    rw [if_pos]
    right
    obtain ⟨i, hi, rfl⟩ := hl p List.mem_cons_self
    exact hne i

theorem Kept.read {len : ℕ} (hseq : peer.isn + peer.stream.length < 2 ^ 32) (h : Kept peer r) :
    Kept peer ((TcpStep.read len).run peer r) := by
  rcases h.state with ⟨a, ha⟩ | hs
  · obtain ⟨d, c', hread, hclosing, hsuf, hstate⟩ := h.read_cases len hseq ha
    rw [run_read hread]
    refine ⟨hclosing, h.waiting.suffix hsuf, ?_⟩
    rcases hstate with ⟨a', hal, -⟩ | ⟨-, hs⟩
    · exact .inl ⟨a', hal⟩
    · exact .inr hs
  · have hread := ipReadTcp_eq h.closing (readLoop_stuck len h.waiting hs.ack) (Nat.le_refl _)
    rw [run_read hread]
    refine ⟨h.closing, h.waiting, .inr ⟨hs.offset, hs.ack, ?_⟩⟩
    rw [List.append_nil]
    exact hs.data

theorem TcpRun.kept (hseq : peer.isn + peer.stream.length < 2 ^ 32) (run : TcpRun peer cond r) :
    Kept peer r := by
  induction run with
  | start => exact ⟨rfl, fun p hp => (by cases hp), .inl ⟨0, rfl, Nat.zero_le _, rfl, fun h0 => absurd rfl h0⟩⟩
  | @step r s _ _ hs ih =>
    cases s with
    | arrive j => exact ih.arrive (hs j rfl)
    | read len => exact ih.read hseq

theorem tcp_read_front (hseq : peer.isn + peer.stream.length < 2 ^ 32) (run : TcpRun peer cond r) :
    r.data <+: peer.stream := (run.kept hseq).prefix_stream

/-- In every run whose reads do not come to the end of a segment that an earlier one left off in, what
was read is a prefix of the stream, and what is acknowledged is all that was returned in whole. -/
theorem tcp_receive_stream (hseq : peer.isn + peer.stream.length < 2 ^ 32)
    (run : TcpRun peer TcpStep.Whole r) : r.data <+: peer.stream ∧ r.con.ack = r.last := by
  have hall : (∃ a, Aligned peer r.data r.con.recvWait r.con.offsetIntoWaiting r.con.ack a) ∧
      r.con.ack = r.last := by
    induction run with
    | start => exact ⟨⟨0, rfl, Nat.zero_le _, rfl, fun h0 => absurd rfl h0⟩, rfl⟩
    | @step r s run hcond hs ih =>
      have hk := run.kept hseq
      obtain ⟨⟨a, ha⟩, hlast⟩ := ih
      cases s with
      | arrive j =>
        rw [run_arrive]
        rcases handleTcpAck_cases (t := peer.pkt j) (c := r.con) with he | ⟨l, hw, he⟩
        · rw [he]
          exact ⟨⟨a, ha⟩, hlast⟩
        · rw [he]
          exact ⟨⟨a, ha.arrive hw⟩, hlast⟩
      | read len =>
        obtain ⟨d, c', hread, -, -, ⟨a', hal, hnone, hsome⟩ | ⟨hpart, -⟩⟩ := hk.read_cases len hseq ha
        · rw [run_read hread]
          refine ⟨⟨a', hal⟩, ?_⟩
          dsimp only
          cases hg : (taken r.con c').getLast? with
          | none =>
            rw [hnone (List.getLast?_eq_none_iff.mp hg)]
            exact hlast
          | some p => exact hsome p hg
        · exact absurd hcond hpart
  exact ⟨tcp_read_front hseq run, hall.2⟩

def twoSegments : Peer := { isn := 100, segs := [[1, 2], [3, 4]] }

theorem tcp_receive_stream_two : ∃ r, TcpRun twoSegments TcpStep.Whole r ∧ r.data = [1, 2, 3] ∧
    r.data <+: twoSegments.stream ∧ r.con.ack = r.last := by
  have hrun : TcpRun twoSegments TcpStep.Whole _ :=
    ((TcpRun.start.step (s := .arrive 1) trivial (fun j hj => by cases hj; decide)).step (s := .arrive 0) trivial
      (fun j hj => by cases hj; decide)).step (s := .read 3) (.inl rfl) (fun j hj => by cases hj)
  exact ⟨_, hrun, rfl, tcp_receive_stream (by decide) hrun⟩

theorem tcp_receive_stream_fails : ¬∀ r, TcpRun twoSegments (fun _ _ => True) r →
    r.data <+: twoSegments.stream ∧ r.con.ack = r.last := by
  intro hall
  have hrun : TcpRun twoSegments (fun _ _ => True) _ :=
    ((TcpRun.start.step (s := .arrive 0) trivial (fun j hj => by cases hj; decide)).step (s := .read 1) trivial
      (fun j hj => by cases hj)).step (s := .read 1) trivial (fun j hj => by cases hj)
  exact absurd (hall _ hrun).2 (by decide)

end Agatha.Net
