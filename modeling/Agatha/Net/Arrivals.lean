import Mathlib.Data.List.Sort
import Agatha.Net.Tcp

namespace Agatha.Net

structure TcpCon.Idle (c : TcpCon) (a : ℕ) : Prop where
  ack : c.ack = a
  offset : c.offsetIntoWaiting = 0
  queue : c.recvWait = []

def arrivals (peer : Peer) (js : List ℕ) (c : TcpCon) : TcpCon :=
  js.foldl (fun c j => handleTcpAck (peer.pkt j) c) c

structure QueueHolds (peer : Peer) (js : List ℕ) (l : List TcpPkt) (later : List ℕ) : Prop where
  queue : l = List.replicate (js.count 0) (peer.pkt 0) ++ later.map peer.pkt
  sorted : later.Pairwise (· < ·)
  mem : ∀ j, j ∈ later ↔ 0 < j ∧ j ∈ js

variable {peer : Peer} {c : TcpCon} {t p : TcpPkt} {l l' : List TcpPkt} {js later : List ℕ} {a i j n want : ℕ}

section Inserting

theorem insertWalk_skip {gap : Bool} (hp : p.seq ≤ a) : insertWalk t gap a (List.replicate n p ++ l) =
    (insertWalk t gap a l).map (List.replicate n p ++ ·) := by
  induction n with
  | zero =>
    rw [List.replicate_zero, List.nil_append]
    cases insertWalk t gap a l <;> rfl
  | succ n ih =>
    rw [List.replicate_succ, List.cons_append, insertWalk, if_pos hp, ih, Option.map_map]
    rfl

theorem insertWalk_first {gap : Bool} (ht : t.seq = a) (hl : ∀ p ∈ l, a < p.seq) :
    insertWalk t gap a l = some (t :: l) := by
  cases l with
  | nil => rfl
  | cons p l =>
    have hp := hl p List.mem_cons_self
    rw [insertWalk, if_neg (by omega), if_neg (by omega), if_pos (by omega)]

theorem insertReceived_none (h : insertWalk t false c.ack c.recvWait = none) : insertReceived t c = c := by
  rw [insertReceived, h]

theorem insertReceived_some (h : insertWalk t false c.ack c.recvWait = some l) :
    insertReceived t c = { c with recvWait := l } := by
  rw [insertReceived, h]

theorem pairwise_insert (hs : later.Pairwise (· < ·)) (hj : j ∉ later) :
    (later.orderedInsert (· ≤ ·) j).Pairwise (· < ·) := by
  have hle : (later.orderedInsert (· ≤ ·) j).Pairwise (· ≤ ·) :=
    List.Pairwise.orderedInsert j later (hs.imp Nat.le_of_lt)
  have hnodup : (later.orderedInsert (· ≤ ·) j).Nodup :=
    (List.perm_orderedInsert _ j later).nodup_iff.mpr (List.nodup_cons.mpr ⟨hj, hs.imp Nat.ne_of_lt⟩)
  exact (hle.and hnodup).imp fun hk => Nat.lt_of_le_of_ne hk.1 hk.2

theorem Peer.pkt_zero : (peer.pkt 0).seq = peer.isn := by
  have hzero : peer.offset 0 = 0 := rfl
  change peer.isn + peer.offset 0 = _
  rw [hzero, Nat.add_zero]

variable (hcut : ∀ s ∈ peer.segs, s ≠ [])

include hcut

theorem Peer.pkt_pos (hj : j < peer.segs.length) : 0 < (peer.pkt j).len := by
  have hget : peer.segs.getD j [] = peer.segs[j] := by simp [hj]
  unfold Peer.pkt TcpPkt.len
  rw [hget]
  exact List.length_pos_iff.mpr (hcut _ (List.getElem_mem hj))

theorem Peer.offset_lt (hi : i < j) (hj : j < peer.segs.length) : peer.offset i < peer.offset j := by
  have hpos := Peer.pkt_pos hcut (hi.trans hj)
  have hsucc := Peer.offset_succ (hi.trans hj)
  have hmono : peer.offset (i + 1) ≤ peer.offset j := Peer.offset_mono hi
  omega

theorem Peer.pkt_seq_lt (_ : i < peer.segs.length) (hj : j < peer.segs.length) :
    (peer.pkt i).seq < (peer.pkt j).seq ↔ i < j := by
  have hseq : ∀ k, (peer.pkt k).seq = peer.isn + peer.offset k := fun _ => rfl
  rw [hseq, hseq]
  constructor
  · intro h
    by_contra hle
    have hmono : peer.offset j ≤ peer.offset i := Peer.offset_mono (by omega)
    omega
  · intro h
    have hlt := Peer.offset_lt hcut h hj
    omega

theorem insertWalk_later {gap : Bool} (hj : j < peer.segs.length) (hlen : ∀ i ∈ later, i < peer.segs.length)
    (hlater : ∀ i ∈ later, peer.isn < (peer.pkt i).seq) (hs : later.Pairwise (· < ·)) :
    insertWalk (peer.pkt j) gap peer.isn (later.map peer.pkt) =
      if j ∈ later then none else some ((later.orderedInsert (· ≤ ·) j).map peer.pkt) := by
  induction later generalizing gap with
  | nil => rfl
  | cons i later ih =>
    have hi := hlen i List.mem_cons_self
    have hisn := hlater i List.mem_cons_self
    obtain ⟨hhead, htail⟩ := List.pairwise_cons.mp hs
    have hrec := fun gap => @ih gap (fun k hk => hlen k (List.mem_cons_of_mem _ hk))
      (fun k hk => hlater k (List.mem_cons_of_mem _ hk)) htail
    have hlt := Peer.pkt_seq_lt hcut hj hi
    have hgt := Peer.pkt_seq_lt hcut hi hj
    rw [List.map_cons, insertWalk, if_neg (by omega)]
    rcases Nat.lt_trichotomy j i with h | rfl | h
    · have hnot : j ∉ i :: later := by
        intro hmem
        rcases List.mem_cons.mp hmem with he | hmem
        · omega
        · have := hhead j hmem
          omega
      have hseq := hlt.mpr h
      rw [if_neg (by omega), if_pos hseq, if_neg hnot, List.orderedInsert_cons_of_le _ _ h.le]
      rfl
    · rw [if_pos rfl, if_pos List.mem_cons_self]
    · have hseq := hgt.mpr h
      have hcont : ¬ (gap = false ∧ peer.isn = (peer.pkt i).seq) := by omega
      rw [if_neg (by omega), if_neg (by omega), if_neg hcont, if_neg hcont, hrec,
        List.orderedInsert_of_not_le _ _ (by omega)]
      by_cases hmem : j ∈ later
      · rw [if_pos hmem, if_pos (List.mem_cons_of_mem _ hmem)]
        rfl
      · rw [if_neg hmem, if_neg fun hm => (List.mem_cons.mp hm).elim (by omega) hmem]
        rfl

theorem QueueHolds.insert (hj : j < peer.segs.length) (hjs : ∀ i ∈ js, i < peer.segs.length)
    (h : QueueHolds peer js c.recvWait later) (hack : c.ack = peer.isn) :
    ∃ later', QueueHolds peer (js ++ [j]) (insertReceived (peer.pkt j) c).recvWait later' ∧
      (insertReceived (peer.pkt j) c).ack = peer.isn ∧
      (insertReceived (peer.pkt j) c).offsetIntoWaiting = c.offsetIntoWaiting := by
  have hlen : ∀ i ∈ later, i < peer.segs.length := fun i hi => hjs i ((h.mem i).mp hi).2
  have hlater : ∀ i ∈ later, peer.isn < (peer.pkt i).seq := by
    intro i hi
    rw [← Peer.pkt_zero, Peer.pkt_seq_lt hcut (by have := hlen i hi; omega) (hlen i hi)]
    exact ((h.mem i).mp hi).1
  have hmem : ∀ k, k ∈ js ++ [j] ↔ k ∈ js ∨ k = j := fun k => by
    rw [List.mem_append, List.mem_singleton]
  have hwalk := @insertWalk_skip (peer.pkt j) (peer.pkt 0) (later.map peer.pkt) peer.isn (js.count 0) false
    Peer.pkt_zero.le
  rw [← h.queue, ← hack] at hwalk
  have hcount : (js ++ [j]).count 0 = js.count 0 + if j = 0 then 1 else 0 := by
    rw [List.count_append, List.count_singleton]
    simp only [beq_iff_eq]
  rcases Nat.eq_zero_or_pos j with rfl | hpos
  · have hl : ∀ p ∈ later.map peer.pkt, peer.isn < p.seq := by
      intro p hp
      obtain ⟨i, hi, rfl⟩ := List.mem_map.mp hp
      exact hlater i hi
    rw [hack, insertWalk_first Peer.pkt_zero hl, ← hack] at hwalk
    rw [insertReceived_some hwalk]
    refine ⟨later, ⟨?_, h.sorted, fun k => ?_⟩, hack, rfl⟩
    · rw [hcount, if_pos rfl, List.replicate_succ', List.append_assoc]
      rfl
    · rw [h.mem, hmem]
      constructor
      · exact fun hk => ⟨hk.1, .inl hk.2⟩
      · rintro ⟨hk, hk' | rfl⟩
        · exact ⟨hk, hk'⟩
        · exact absurd rfl hk.ne'
  · rw [hack, insertWalk_later hcut hj hlen hlater h.sorted, ← hack] at hwalk
    by_cases hin : j ∈ later
    · rw [if_pos hin] at hwalk
      rw [insertReceived_none hwalk]
      refine ⟨later, ⟨?_, h.sorted, fun k => ?_⟩, hack, rfl⟩
      · rw [hcount, if_neg hpos.ne', Nat.add_zero]
        exact h.queue
      · have hjin := (h.mem j).mp hin
        rw [h.mem, hmem]
        constructor
        · exact fun hk => ⟨hk.1, .inl hk.2⟩
        · rintro ⟨hk, hk' | rfl⟩
          · exact ⟨hk, hk'⟩
          · exact hjin
    · rw [if_neg hin] at hwalk
      rw [insertReceived_some hwalk]
      refine ⟨later.orderedInsert (· ≤ ·) j, ⟨?_, pairwise_insert h.sorted hin, fun k => ?_⟩, hack, rfl⟩
      · rw [hcount, if_neg hpos.ne', Nat.add_zero]
      · rw [List.mem_orderedInsert, h.mem, hmem]
        constructor
        · rintro (rfl | hk)
          · exact ⟨hpos, .inr rfl⟩
          · exact ⟨hk.1, .inl hk.2⟩
        · rintro ⟨hk, hk' | rfl⟩
          · exact .inr ⟨hk, hk'⟩
          · exact .inl rfl

end Inserting

section Reading

theorem arrivals_append : arrivals peer (js ++ [j]) c = handleTcpAck (peer.pkt j) (arrivals peer js c) :=
  List.foldl_concat ..

theorem readLoop_stops (hn : want = 0 ∨ p.seq ≠ a) : readLoop (p :: l) 0 a want = ([], p :: l, 0, a) := by
  rw [readLoop, if_pos hn]

theorem readLoop_whole (hwant : p.len ≤ want) (hpos : 0 < want) (hp : p.seq = a) :
    readLoop (p :: l) 0 a want =
      (p.data ++ (readLoop l 0 ((a + p.len) % 2 ^ 32) (want - p.len)).1,
        (readLoop l 0 ((a + p.len) % 2 ^ 32) (want - p.len)).2) := by
  have hmin : min want (p.len - 0) = p.len := by omega
  have htake : (p.data.drop 0).take p.len = p.data := List.take_length
  rw [readLoop, if_neg (by omega)]
  dsimp only
  rw [hmin, if_neg (by omega), htake]

variable (hcut : ∀ s ∈ peer.segs, s ≠ []) (hseq : peer.isn + peer.stream.length < 2 ^ 32)

include hcut hseq

theorem QueueHolds.arrivals (hidle : c.Idle peer.isn) (hjs : ∀ i ∈ js, i < peer.segs.length) :
    ∃ later, QueueHolds peer js (arrivals peer js c).recvWait later ∧ (arrivals peer js c).ack = peer.isn ∧
      (arrivals peer js c).offsetIntoWaiting = 0 := by
  induction js using List.reverseRecOn with
  | nil => exact ⟨[], ⟨hidle.queue, .nil, by simp⟩, hidle.ack, hidle.offset⟩
  | append_singleton js j ih =>
    obtain ⟨later, hq, hack, hoff⟩ := ih fun i hi => hjs i (List.mem_append_left _ hi)
    have hj := hjs j (List.mem_append_right _ (List.mem_singleton_self j))
    have hnew : (Net.arrivals peer js c).ack < ((peer.pkt j).seq + (peer.pkt j).len) % 2 ^ 32 := by
      have hpos := Peer.pkt_pos hcut hj
      have hend := Peer.pkt_end_le hj
      have hsum : (peer.pkt j).seq = peer.isn + peer.offset j := rfl
      rw [hack, hsum, Nat.mod_eq_of_lt (by omega)]
      omega
    rw [arrivals_append]
    unfold handleTcpAck
    rw [if_pos hnew]
    obtain ⟨later', hq', hack', hoff'⟩ :=
      hq.insert hcut hj (fun i hi => hjs i (List.mem_append_left _ hi)) hack
    exact ⟨later', hq', hack', hoff'.trans hoff⟩

theorem readLoop_all (hn : i + n = peer.segs.length) (hwant : (peer.segs.drop i).flatten.length ≤ want) :
    ∃ o, readLoop ((List.range' i n).map peer.pkt) 0 (peer.isn + peer.offset i) want =
      ((peer.segs.drop i).flatten, [], 0, o) := by
  induction n generalizing i want with
  | zero =>
    rw [List.drop_eq_nil_of_le (by omega)]
    exact ⟨_, rfl⟩
  | succ n ih =>
    have hi : i < peer.segs.length := by omega
    have hdrop : peer.segs.drop i = peer.segs[i] :: peer.segs.drop (i + 1) := List.drop_eq_getElem_cons hi
    have hdata : (peer.pkt i).data = peer.segs[i] := by
      change peer.segs.getD i [] = _
      simp [hi]
    have hlen : (peer.pkt i).len = peer.segs[i].length := by rw [← hdata]; rfl
    have hpos := Peer.pkt_pos hcut hi
    have hend := Peer.pkt_end_le hi
    have hsucc := Peer.offset_succ hi
    rw [hdrop, List.flatten_cons, List.length_append] at hwant
    obtain ⟨o, hrec⟩ := @ih (i + 1) (want - (peer.pkt i).len) (by omega) (by omega)
    have hmod : (peer.isn + peer.offset i + (peer.pkt i).len) % 2 ^ 32 = peer.isn + peer.offset (i + 1) := by
      rw [hsucc, Nat.mod_eq_of_lt (by omega), Nat.add_assoc]
    refine ⟨o, ?_⟩
    have hwhole : (peer.pkt i).len ≤ want := by omega
    rw [List.range'_succ, List.map_cons, @readLoop_whole (peer.pkt i) _ (peer.isn + peer.offset i) want hwhole (by omega) rfl, hmod,
      hrec, hdata, hdrop, List.flatten_cons]

end Reading

section Resting

theorem insertWalk_ne_nil {gap : Bool} (h : insertWalk t gap a l = some l') : l' ≠ [] := by
  cases l with
  | nil =>
    cases h
    exact List.cons_ne_nil _ _
  | cons p l =>
    have hrec : ∀ {o : Option (List TcpPkt)}, o.map (p :: ·) = some l' → l' ≠ [] := by
      intro o hmap
      obtain ⟨l₁, -, rfl⟩ := Option.map_eq_some_iff.mp hmap
      exact List.cons_ne_nil _ _
    unfold insertWalk at h
    dsimp only at h
    split_ifs at h
    all_goals first
      | (cases h
         exact List.cons_ne_nil _ _)
      | exact hrec h

theorem readLoop_rests {o : ℕ} (ho : l = [] → o = 0) (h : (readLoop l o a want).2.1 = []) :
    (readLoop l o a want).2.2.1 = 0 := by
  induction l generalizing o a want with
  | nil => exact ho rfl
  | cons p l ih =>
    unfold readLoop at h ⊢
    dsimp only at h ⊢
    split_ifs at h ⊢
    exact ih (fun _ => rfl) h

theorem TcpRun.rests {cond : TcpCon → TcpStep → Prop} {r : Reading} (run : TcpRun peer cond r)
    (h : r.con.recvWait = []) : r.con.offsetIntoWaiting = 0 := by
  induction run with
  | start => rfl
  | @step r s run hcond hs ih =>
    cases s with
    | arrive j =>
      rw [run_arrive] at h ⊢
      dsimp only at h ⊢
      obtain he | ⟨l, hw, he⟩ := @handleTcpAck_cases r.con (peer.pkt j)
      · rw [he] at h ⊢
        exact ih h
      · rw [he] at h
        exact absurd h (insertWalk_ne_nil hw)
    | read len => exact readLoop_rests ih h

end Resting

section Stalling

theorem ipReadTcp_fields {len : ℕ} : (ipReadTcp len c).1 = (readLoop c.recvWait c.offsetIntoWaiting c.ack len).1 ∧
    (ipReadTcp len c).2.recvWait = (readLoop c.recvWait c.offsetIntoWaiting c.ack len).2.1 := ⟨rfl, rfl⟩

/-- Once every segment has arrived, one read of at least all bytes returns them and empties the queue just if the first
segment came no more than once. -/
theorem tcp_one_read {len : ℕ} (hcut : ∀ s ∈ peer.segs, s ≠ []) (hseq : peer.isn + peer.stream.length < 2 ^ 32)
    (hidle : c.Idle peer.isn) (hjs : ∀ j, j ∈ js ↔ j < peer.segs.length) (hlen : peer.stream.length ≤ len) :
    ((ipReadTcp len (arrivals peer js c)).1 = peer.stream ∧ (ipReadTcp len (arrivals peer js c)).2.recvWait = []) ↔
      js.count 0 ≤ 1 := by
  obtain ⟨later, hq, hack, hoff⟩ := QueueHolds.arrivals hcut hseq hidle fun i hi => (hjs i).mp hi
  have hlater : later = List.range' 1 (peer.segs.length - 1) := by
    apply hq.sorted.eq_of_mem_iff (List.pairwise_lt_range' ..)
    intro j
    rw [hq.mem, hjs, List.mem_range'_1]
    omega
  obtain ⟨hdata, hwait⟩ := @ipReadTcp_fields (arrivals peer js c) len
  rw [hdata, hwait, hoff, hack, hq.queue, hlater]
  have hzero : peer.offset 0 = 0 := rfl
  by_cases hnone : peer.segs.length = 0
  · have hcount : js.count 0 = 0 := List.count_eq_zero_of_not_mem fun h => by
      have := (hjs 0).mp h
      omega
    have hstream : peer.stream = [] := by
      unfold Peer.stream
      rw [List.length_eq_zero_iff.mp hnone]
      rfl
    rw [hcount, hnone, hstream]
    exact iff_of_true ⟨rfl, rfl⟩ (Nat.zero_le 1)
  have hone : 0 < js.count 0 := List.count_pos_iff.mpr ((hjs 0).mpr (Nat.pos_of_ne_zero hnone))
  by_cases hcount : js.count 0 ≤ 1
  · have heq : js.count 0 = 1 := by omega
    refine iff_of_true ?_ hcount
    obtain ⟨o, hall⟩ := @readLoop_all peer 0 peer.segs.length len hcut hseq (Nat.zero_add _) hlen
    have hrange : List.replicate 1 (peer.pkt 0) ++ (List.range' 1 (peer.segs.length - 1)).map peer.pkt =
        (List.range' 0 peer.segs.length).map peer.pkt := by
      obtain ⟨m, hm⟩ := Nat.exists_eq_succ_of_ne_zero hnone
      rw [hm, List.range'_succ, List.map_cons, Nat.succ_sub_one]
      rfl
    rw [hzero, Nat.add_zero] at hall
    rw [heq, hrange, hall]
    exact ⟨rfl, rfl⟩
  · refine iff_of_false ?_ hcount
    -- the second copy of the first segment is never taken off the queue
    obtain ⟨m, hm⟩ : ∃ m, js.count 0 = m + 2 := Nat.exists_eq_add_of_le' (by omega)
    have hpos := Peer.pkt_pos hcut (Nat.pos_of_ne_zero hnone)
    have hend := Peer.pkt_end_le (Nat.pos_of_ne_zero hnone)
    rw [hzero] at hend
    rw [hm, List.replicate_succ, List.replicate_succ, List.cons_append, List.cons_append,
      readLoop_whole (by omega) (by omega) Peer.pkt_zero, readLoop_stops]
    · rintro ⟨-, hwait⟩
      cases hwait
    · right
      rw [Peer.pkt_zero, Nat.mod_eq_of_lt (by omega)]
      omega

theorem tcp_one_read_reordered :
    (ipReadTcp 4 (arrivals twoSegments [1, 0, 1] ⟨100, false, 0, []⟩)).1 = twoSegments.stream ∧
      (ipReadTcp 4 (arrivals twoSegments [1, 0, 1] ⟨100, false, 0, []⟩)).2.recvWait = [] :=
  (tcp_one_read (by decide) (by decide) ⟨rfl, rfl, rfl⟩
    (fun j => by simp only [List.mem_cons, List.not_mem_nil, or_false, twoSegments, List.length_cons,
      List.length_nil]; omega) (by decide)).mpr (by decide)

theorem tcp_one_read_stalls : (ipReadTcp 4 (arrivals twoSegments [0, 0, 1] ⟨100, false, 0, []⟩)).1 = [1, 2] ∧
    (ipReadTcp 4 (arrivals twoSegments [0, 0, 1] ⟨100, false, 0, []⟩)).2.recvWait =
      [twoSegments.pkt 0, twoSegments.pkt 1] ∧ twoSegments.stream = [1, 2, 3, 4] := by
  decide

end Stalling

end Agatha.Net
