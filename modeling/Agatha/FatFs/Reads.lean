import Agatha.FatFs.Chains

namespace Agatha.FatFs

open Library Library.Loops

def clusterPos (fat : Fat) (c : ℕ) : ℕ := (fat.dataarea + (c - 2) * fat.spc) * fat.bps

structure HasChain (fat : Fat) (disk : Bytes) (lookups : ℕ → Answers) (first : ℕ) (chain : List ℕ) : Prop where
  nth : ∀ m c, chain[m]? = some c → clusterAt fat disk (fun i => (lookups i).granted) first m = c
  ends : clusterAt fat disk (fun i => (lookups i).granted) first chain.length = 0
  valid : ∀ c ∈ chain, 2 ≤ c ∧ c < 2 ^ 32

structure TrueRequest (fat : Fat) (c off : ℕ) (rq : BlockReq) : Prop where
  blk : rq.blk * fat.blockSize = fat.start * fat.blockSize + clusterPos fat c
  len : rq.nBlks * fat.blockSize = fat.clusterSize
  off : rq.off = off

def ReadsRight (fat : Fat) (disk : Bytes) (chain : List ℕ) (frameOffset fileOffset len : ℕ) (r : ReadResult) :
    Prop :=
  ∀ j c, j * fat.clusterSize < len → chain[fileOffset / fat.clusterSize + j]? = some c →
    (∃ rq, r.reads[j]? = some rq ∧ TrueRequest fat c (frameOffset + j * fat.clusterSize) rq) ∧
    ∀ x < fat.clusterSize, r.frame (frameOffset + j * fat.clusterSize + x) =
      disk (fat.start * fat.blockSize + clusterPos fat c + x)

def ReadRefused (fat : Fat) (disk : Bytes) (lookups : ℕ → Answers) (data : ℕ → Bool) (file : File)
    (frameLen frameOffset fileOffset len : ℕ) : Prop :=
  ∃ n, ReadFails fat disk lookups data file frameLen frameOffset fileOffset n ∧
    ∀ m ≤ n, ¬ReadDone fat disk lookups file fileOffset len m

def ReadsPlain (fat : Fat) (lookups : ℕ → Answers) (chain : List ℕ) (fileOffset len : ℕ) : Prop :=
  ∀ j c, j * fat.clusterSize < len → chain[fileOffset / fat.clusterSize + j]? = some c →
    (∀ m < fileOffset / fat.clusterSize + j, (lookups m).ok = true) ∧ clusterPos fat c < 2 ^ 32 ∧
      fat.blockSize ∣ clusterPos fat c ∧ fat.blockSize ∣ fat.clusterSize

variable {fat : Fat} {disk frame : Bytes} {lookups : ℕ → Answers} {data : ℕ → Bool} {file : File}
variable {frameLen frameOffset fileOffset len first n m c off fuel : ℕ} {chain : List ℕ} {r : ReadResult}
variable {a : Answers} {rq : BlockReq}

section Lookups

theorem granted_of_ok (h : a.ok = true) : a.granted = a := by
  obtain ⟨mem, read, map, old⟩ := a
  unfold Answers.ok at h
  simp only [Bool.and_eq_true] at h
  obtain ⟨⟨rfl, rfl⟩, rfl⟩ := h
  rfl

theorem fatNextCluster_failed (h : ¬a.ok = true) : fatNextCluster fat disk a c = 0 := by
  have hinfo : fatTableInfo fat disk a c = 0 := if_neg h
  unfold fatNextCluster
  rw [hinfo]
  cases fat.type <;> rfl

theorem clusterAt_granted (h : ∀ m < n, (lookups m).ok = true) :
    clusterAt fat disk lookups first n = clusterAt fat disk (fun i => (lookups i).granted) first n := by
  induction n with
  | zero => rfl
  | succ n ih =>
    rw [clusterAt_succ, clusterAt_succ, ih fun m hm => h m (Nat.lt_succ_of_lt hm),
      granted_of_ok (h n (Nat.lt_succ_self n))]

theorem ok_of_clusterAt (h : clusterAt fat disk lookups first (m + 1) ≠ 0) : (lookups m).ok = true := by
  by_contra hfail
  exact h (by rw [clusterAt_succ, fatNextCluster_failed hfail])

theorem HasChain.exists_zero (h : HasChain fat disk lookups first chain) :
    ∃ n ≤ chain.length, clusterAt fat disk lookups first n = 0 := by
  by_cases hok : ∀ m < chain.length, (lookups m).ok = true
  · exact ⟨chain.length, Nat.le_refl _, by rw [clusterAt_granted hok, h.ends]⟩
  · push Not at hok
    obtain ⟨m, hm, hfail⟩ := hok
    exact ⟨m + 1, hm, by rw [clusterAt_succ, fatNextCluster_failed hfail]⟩

end Lookups

section Runs

theorem readAt_reads (halign : fileOffset % fat.clusterSize = 0) :
    (readAt fat disk lookups file frame frameOffset fileOffset n).reads =
      (List.range (n - fileOffset / fat.clusterSize)).map fun j =>
        readRequest fat disk lookups file frameOffset fileOffset (fileOffset / fat.clusterSize + j) := by
  induction n with
  | zero => rw [Nat.zero_sub]; rfl
  | succ n ih =>
    rw [readAt_succ]
    by_cases hn : n < fileOffset / fat.clusterSize
    · rw [readStep_skip ((readAt_skips halign).mpr hn)]
      dsimp only
      rw [ih, Nat.sub_eq_zero_of_le (Nat.le_of_lt hn), Nat.sub_eq_zero_of_le hn]
    · have hle := Nat.le_of_not_lt hn
      rw [readStep_read fun h => hn ((readAt_skips halign).mp h)]
      dsimp only
      rw [ih, readAt_request halign, Nat.succ_sub hle, List.range_succ, List.map_append, List.map_singleton,
        Nat.add_sub_cancel' hle]

theorem fatFileRead_ends (halign : fileOffset % fat.clusterSize = 0)
    (h : fatFileRead fat disk lookups data fuel file frame frameLen frameOffset fileOffset len = some r) :
    ∃ n, r = { ret := r.ret, entries := n,
               reads := (readAt fat disk lookups file frame frameOffset fileOffset n).reads,
               frame := (readAt fat disk lookups file frame frameOffset fileOffset n).frame } ∧
      (r.ret = OK ∧ ReadDone fat disk lookups file fileOffset len n ∨
        r.ret = ERR ∧ ¬ReadDone fat disk lookups file fileOffset len n ∧
          ReadFails fat disk lookups data file frameLen frameOffset fileOffset n) ∧
      ∀ m < n, ¬ReadDone fat disk lookups file fileOffset len m ∧
        ¬ReadFails fat disk lookups data file frameLen frameOffset fileOffset m := by
  have hcond : ¬fileOffset % (fat.spc * fat.bps) ≠ 0 := not_not.mpr halign
  unfold fatFileRead at h
  rw [if_neg hcond] at h
  obtain ⟨⟨b, n, s⟩, hr, rfl⟩ := Option.map_eq_some_iff.mp h
  obtain ⟨⟨hstop, hbefore⟩, hs⟩ := loop_iff.mp ⟨fuel, hr⟩
  dsimp only at hstop hbefore hs
  subst hs
  have hstop' : readStop fat data frameOffset frameLen len n
      (readAt fat disk lookups file frame frameOffset fileOffset n) = some b := hstop
  rw [readStop_eq halign] at hstop'
  refine ⟨n, rfl, ?_, fun m hm => ?_⟩
  · split_ifs at hstop' with hdone hfails
    · exact .inl ⟨(Option.some.inj hstop').symm, hdone⟩
    · exact .inr ⟨(Option.some.inj hstop').symm, hdone, hfails⟩
  · have hgo : readStop fat data frameOffset frameLen len m
        (readAt fat disk lookups file frame frameOffset fileOffset m) = none := hbefore m hm
    rw [readStop_eq halign] at hgo
    split_ifs at hgo with hdone hfails
    exact ⟨hdone, hfails⟩

theorem ok_before (h : ∀ m ≤ n, ¬ReadDone fat disk lookups file fileOffset len m) (hm : m < n) :
    (lookups m).ok = true :=
  ok_of_clusterAt fun hz => h (m + 1) hm (.inl hz)

end Runs

section Requests

theorem sector_pos (h2 : 2 ≤ c) (h32 : c < 2 ^ 32) :
    clusterToSector fat c * fat.bps % 2 ^ 32 = clusterPos fat c % 2 ^ 32 := by
  have hsub : (c + (2 ^ 32 - 2)) % 2 ^ 32 = c - 2 := by omega
  unfold clusterToSector clusterPos
  rw [hsub, Nat.mod_mul_mod]

theorem trueRequest_iff (h2 : 2 ≤ c) (h32 : c < 2 ^ 32)
    (hblk : fat.start + clusterPos fat c / fat.blockSize < 2 ^ 32) :
    TrueRequest fat c off (fatReadBlocks fat off (clusterToSector fat c * fat.bps % 2 ^ 32) fat.clusterSize) ↔
      clusterPos fat c < 2 ^ 32 ∧ fat.blockSize ∣ clusterPos fat c ∧ fat.blockSize ∣ fat.clusterSize := by
  have hmod : clusterPos fat c % 2 ^ 32 ≤ clusterPos fat c := Nat.mod_le _ _
  have hlt : fat.start + clusterPos fat c % 2 ^ 32 / fat.blockSize < 2 ^ 32 :=
    Nat.lt_of_le_of_lt (Nat.add_le_add_left (Nat.div_le_div_right hmod) _) hblk
  have hreq : (fatReadBlocks fat off (clusterToSector fat c * fat.bps % 2 ^ 32) fat.clusterSize).blk =
      fat.start + clusterPos fat c % 2 ^ 32 / fat.blockSize := by
    unfold fatReadBlocks
    rw [sector_pos h2 h32, Nat.mod_eq_of_lt hlt]
  constructor
  · rintro ⟨hb, hl, -⟩
    rw [hreq, Nat.add_mul] at hb
    have hpos : clusterPos fat c % 2 ^ 32 / fat.blockSize * fat.blockSize = clusterPos fat c :=
      Nat.add_left_cancel hb
    have hle := Nat.div_mul_le_self (clusterPos fat c % 2 ^ 32) fat.blockSize
    have hsame : clusterPos fat c % 2 ^ 32 = clusterPos fat c := by omega
    exact ⟨hsame ▸ Nat.mod_lt _ (by decide), Dvd.intro_left _ hpos, Dvd.intro_left _ hl⟩
  · rintro ⟨h32', hdvd, hsize⟩
    refine ⟨?_, Nat.div_mul_cancel hsize, rfl⟩
    rw [hreq, Nat.mod_eq_of_lt h32', Nat.add_mul, Nat.div_mul_cancel hdvd]

end Requests

section Right

theorem chain_of_turns (hchain : HasChain fat disk lookups file.startCluster chain)
    (hgo : ∀ m ≤ n, ¬ReadDone fat disk lookups file fileOffset len m) :
    ∃ c, chain[n]? = some c ∧ clusterAt fat disk lookups file.startCluster n = c := by
  have hok : ∀ k ≤ n, clusterAt fat disk lookups file.startCluster k =
      clusterAt fat disk (fun i => (lookups i).granted) file.startCluster k := by
    intro k hk
    exact clusterAt_granted fun m hm => ok_before hgo (Nat.lt_of_lt_of_le hm hk)
  have hn : n < chain.length := by
    by_contra hge
    have hle := Nat.le_of_not_lt hge
    exact hgo chain.length hle (.inl (by rw [hok _ hle, hchain.ends]))
  refine ⟨chain[n], List.getElem?_eq_getElem hn, ?_⟩
  rw [hok n (Nat.le_refl n)]
  exact hchain.nth n _ (List.getElem?_eq_getElem hn)

structure TurnOk (fat : Fat) (disk : Bytes) (lookups : ℕ → Answers) (file : File) (chain : List ℕ)
    (frameLen frameOffset fileOffset i : ℕ) : Prop where
  fits : frameOffset + i * fat.clusterSize + fat.clusterSize ≤ frameLen
  request : ∃ c, chain[fileOffset / fat.clusterSize + i]? = some c ∧
    TrueRequest fat c (frameOffset + i * fat.clusterSize)
      (readRequest fat disk lookups file frameOffset fileOffset (fileOffset / fat.clusterSize + i))

theorem progress_eq {i : ℕ} (h : i * fat.clusterSize < 2 ^ 32) :
    progress fat fileOffset (fileOffset / fat.clusterSize + i) = i * fat.clusterSize := by
  unfold progress
  rw [Nat.add_sub_cancel_left, Nat.mod_eq_of_lt h]

theorem turn_ok {i : ℕ} (hchain : HasChain fat disk lookups file.startCluster chain)
    (hblocks : ∀ c ∈ chain, fat.start + clusterPos fat c / fat.blockSize < 2 ^ 32)
    (hoffset : frameOffset < 2 ^ 32) (hframe : frameLen < 2 ^ 32)
    (hplain : ReadsPlain fat lookups chain fileOffset len) (hn : fileOffset / fat.clusterSize + i < n)
    (hgo : ∀ m < n, ¬ReadDone fat disk lookups file fileOffset len m ∧
      ¬ReadFails fat disk lookups data file frameLen frameOffset fileOffset m) :
    TurnOk fat disk lookups file chain frameLen frameOffset fileOffset i := by
  have hoff : frameOffset + i * fat.clusterSize < 2 ^ 32 := by
    cases i with
    | zero =>
      rw [Nat.zero_mul]
      exact hoffset
    | succ i =>
      have hprev := (turn_ok (i := i) hchain hblocks hoffset hframe hplain (by omega) hgo).fits
      rw [Nat.succ_mul]
      omega
  have hprog : progress fat fileOffset (fileOffset / fat.clusterSize + i) = i * fat.clusterSize :=
    progress_eq (by omega)
  have hnot : ∀ m ≤ fileOffset / fat.clusterSize + i, ¬ReadDone fat disk lookups file fileOffset len m :=
    fun m hm => (hgo m (Nat.lt_of_le_of_lt hm hn)).1
  obtain ⟨c, hc, hcl⟩ := chain_of_turns hchain hnot
  have hlt : i * fat.clusterSize < len := by
    have hmore := (not_or.mp (hnot _ (Nat.le_refl _))).2
    rw [hprog] at hmore
    exact Nat.lt_of_not_le hmore
  have hmem : c ∈ chain := List.mem_of_getElem? hc
  obtain ⟨h2, h32⟩ := hchain.valid c hmem
  obtain ⟨-, hpos⟩ := hplain i c hlt hc
  have hreq : readRequest fat disk lookups file frameOffset fileOffset (fileOffset / fat.clusterSize + i) =
      fatReadBlocks fat (frameOffset + i * fat.clusterSize) (clusterToSector fat c * fat.bps % 2 ^ 32)
        fat.clusterSize := by
    unfold readRequest
    rw [hprog, hcl, Nat.mod_eq_of_lt hoff]
  have htrue : TrueRequest fat c (frameOffset + i * fat.clusterSize) _ :=
    (trueRequest_iff h2 h32 (hblocks c hmem)).mpr hpos
  have hacc : accepts fat frameLen (data (fileOffset / fat.clusterSize + i))
      (readRequest fat disk lookups file frameOffset fileOffset (fileOffset / fat.clusterSize + i)) := by
    by_contra hno
    exact (hgo _ hn).2 ⟨Nat.le_add_right _ _, hno⟩
  rw [← hreq] at htrue
  refine ⟨?_, c, hc, htrue⟩
  have hfit := hacc.2
  rw [htrue.len, htrue.off] at hfit
  exact hfit

theorem readAt_frame {k : ℕ} (halign : fileOffset % fat.clusterSize = 0)
    (hturn : ∀ i < k, TurnOk fat disk lookups file chain frameLen frameOffset fileOffset i) {j x : ℕ} (hj : j < k)
    (hc : chain[fileOffset / fat.clusterSize + j]? = some c) (hx : x < fat.clusterSize) :
    (readAt fat disk lookups file frame frameOffset fileOffset (fileOffset / fat.clusterSize + k)).frame
      (frameOffset + j * fat.clusterSize + x) = disk (fat.start * fat.blockSize + clusterPos fat c + x) := by
  induction k with
  | zero => omega
  | succ k ih =>
    have hread : ¬(readAt fat disk lookups file frame frameOffset fileOffset
        (fileOffset / fat.clusterSize + k)).fileOffset > 0 :=
      fun h => absurd ((readAt_skips halign).mp h) (Nat.not_lt_of_le (Nat.le_add_right _ _))
    rw [← Nat.add_assoc, readAt_succ, readStep_read hread]
    dsimp only
    rw [readAt_request halign]
    obtain ⟨c', hc', htrue⟩ := (hturn k (Nat.lt_succ_self k)).request
    unfold deliver
    rw [htrue.blk, htrue.len, htrue.off]
    rcases Nat.lt_succ_iff_lt_or_eq.mp hj with hlt | rfl
    · have hmul : (j + 1) * fat.clusterSize ≤ k * fat.clusterSize := Nat.mul_le_mul_right _ hlt
      rw [Nat.succ_mul] at hmul
      rw [Bytes.copy_outside _ (by omega)]
      exact ih (fun i hi => hturn i (Nat.lt_succ_of_lt hi)) hlt
    · obtain rfl : c' = c := Option.some.inj (hc'.symm.trans hc)
      rw [Bytes.copy_inside _ (by omega) (by omega)]
      congr 1
      omega

theorem right_of_plain (hchain : HasChain fat disk lookups file.startCluster chain)
    (hblocks : ∀ c ∈ chain, fat.start + clusterPos fat c / fat.blockSize < 2 ^ 32)
    (hoffset : frameOffset < 2 ^ 32) (hframe : frameLen < 2 ^ 32)
    (halign : fileOffset % fat.clusterSize = 0) (hplain : ReadsPlain fat lookups chain fileOffset len)
    (h : fatFileRead fat disk lookups data fuel file frame frameLen frameOffset fileOffset len = some r)
    (hret : r.ret = OK) : ReadsRight fat disk chain frameOffset fileOffset len r := by
  obtain ⟨n, hr, hend, hgo⟩ := fatFileRead_ends halign h
  have hdone : ReadDone fat disk lookups file fileOffset len n := by
    obtain ⟨-, hdone⟩ | ⟨herr, -⟩ := hend
    · exact hdone
    · exact absurd (hret.symm.trans herr) (by decide)
  intro j c hj hc
  -- the cluster is reached, since neither the chain nor the length ends before it
  have hreach : fileOffset / fat.clusterSize + j < n := by
    by_contra hle
    have hn : n ≤ fileOffset / fat.clusterSize + j := Nat.le_of_not_lt hle
    obtain ⟨hok, -⟩ := hplain j c hj hc
    have hlast : fileOffset / fat.clusterSize + j < chain.length := by
      by_contra hge
      rw [List.getElem?_eq_none (Nat.le_of_not_lt hge)] at hc
      cases hc
    rcases hdone with hz | hfull
    · rw [clusterAt_granted fun m hm => hok m (Nat.lt_of_lt_of_le hm hn),
        hchain.nth n _ (List.getElem?_eq_getElem (by omega))] at hz
      have hvalid := (hchain.valid _ (List.getElem_mem (show n < chain.length by omega))).1
      omega
    · have hle : (n - fileOffset / fat.clusterSize) * fat.clusterSize ≤ j * fat.clusterSize :=
        Nat.mul_le_mul_right _ (by omega)
      have hmod := Nat.mod_le ((n - fileOffset / fat.clusterSize) * fat.clusterSize) (2 ^ 32)
      unfold progress at hfull
      omega
  have hturn : ∀ i, fileOffset / fat.clusterSize + i < n →
      TurnOk fat disk lookups file chain frameLen frameOffset fileOffset i :=
    fun i hi => turn_ok hchain hblocks hoffset hframe hplain hi hgo
  obtain ⟨k, hk⟩ : ∃ k, n = fileOffset / fat.clusterSize + k := ⟨n - fileOffset / fat.clusterSize, by omega⟩
  rw [hr]
  dsimp only
  refine ⟨?_, fun x hx => ?_⟩
  · obtain ⟨c', hc', htrue⟩ := (hturn j hreach).request
    obtain rfl : c' = c := Option.some.inj (hc'.symm.trans hc)
    refine ⟨_, ?_, htrue⟩
    rw [readAt_reads halign, List.getElem?_map, List.getElem?_range (by omega), Option.map_some]
  · rw [hk]
    exact readAt_frame halign (fun i hi => hturn i (by omega)) (by omega) hc hx

theorem plain_of_right (hchain : HasChain fat disk lookups file.startCluster chain)
    (hblocks : ∀ c ∈ chain, fat.start + clusterPos fat c / fat.blockSize < 2 ^ 32)
    (halign : fileOffset % fat.clusterSize = 0)
    (h : fatFileRead fat disk lookups data fuel file frame frameLen frameOffset fileOffset len = some r)
    (hright : ReadsRight fat disk chain frameOffset fileOffset len r) :
    ReadsPlain fat lookups chain fileOffset len := by
  obtain ⟨n, hr, -, hgo⟩ := fatFileRead_ends halign h
  intro j c hj hc
  obtain ⟨⟨rq, hrq, htrue⟩, -⟩ := hright j c hj hc
  rw [hr] at hrq
  dsimp only at hrq
  rw [readAt_reads halign, List.getElem?_map] at hrq
  obtain ⟨j', hj', rfl⟩ := Option.map_eq_some_iff.mp hrq
  obtain ⟨hlt, hrange⟩ := List.getElem?_eq_some_iff.mp hj'
  rw [List.getElem_range] at hrange
  rw [List.length_range] at hlt
  subst hrange
  have hn : fileOffset / fat.clusterSize + j < n := by omega
  have hnot : ∀ m ≤ fileOffset / fat.clusterSize + j, ¬ReadDone fat disk lookups file fileOffset len m :=
    fun m hm => (hgo m (Nat.lt_of_le_of_lt hm hn)).1
  obtain ⟨c', hc', hcl⟩ := chain_of_turns hchain hnot
  obtain rfl : c' = c := Option.some.inj (hc'.symm.trans hc)
  have hmem : c' ∈ chain := List.mem_of_getElem? hc
  obtain ⟨h2, h32⟩ := hchain.valid c' hmem
  unfold readRequest at htrue
  rw [hcl] at htrue
  exact ⟨fun m hm => ok_before hnot hm, (trueRequest_iff h2 h32 (hblocks c' hmem)).mp ⟨htrue.blk, htrue.len, rfl⟩⟩

theorem err_of_refused (halign : fileOffset % fat.clusterSize = 0)
    (hrefused : ReadRefused fat disk lookups data file frameLen frameOffset fileOffset len)
    (h : fatFileRead fat disk lookups data fuel file frame frameLen frameOffset fileOffset len = some r) :
    r.ret = ERR := by
  obtain ⟨n, -, hend, hgo⟩ := fatFileRead_ends halign h
  obtain ⟨k, hfails, hnot⟩ := hrefused
  obtain ⟨-, hdone⟩ | ⟨herr, -⟩ := hend
  · by_cases hk : n ≤ k
    · exact absurd hdone (hnot n hk)
    · exact absurd hfails (hgo k (Nat.lt_of_not_le hk)).2
  · exact herr

/-- A call that answers `OK` reads the clusters of the chain right exactly when it is refused, so that it
does not, or no lookup before the clusters fails, none of them lies at 2^32 bytes or above, and they are
whole blocks. -/
theorem read_right_iff (hchain : HasChain fat disk lookups file.startCluster chain)
    (hblocks : ∀ c ∈ chain, fat.start + clusterPos fat c / fat.blockSize < 2 ^ 32)
    (hoffset : frameOffset < 2 ^ 32) (hframe : frameLen < 2 ^ 32) (halign : fileOffset % fat.clusterSize = 0) :
    (∀ fuel r, fatFileRead fat disk lookups data fuel file frame frameLen frameOffset fileOffset len = some r →
      r.ret = OK → ReadsRight fat disk chain frameOffset fileOffset len r) ↔
    ReadRefused fat disk lookups data file frameLen frameOffset fileOffset len ∨
      ReadsPlain fat lookups chain fileOffset len := by
  constructor
  · intro h
    by_cases hrefused : ReadRefused fat disk lookups data file frameLen frameOffset fileOffset len
    · exact .inl hrefused
    · obtain ⟨n, hn, hz⟩ := hchain.exists_zero
      obtain ⟨fuel, r, hr, -⟩ := fatFileRead_within_iff.mpr (.inr ⟨n, hn, .inl (.inl hz)⟩)
      obtain ⟨n', -, hend, hgo⟩ := fatFileRead_ends halign hr
      obtain ⟨hok, -⟩ | ⟨-, hnot, hfails⟩ := hend
      · exact .inr (plain_of_right hchain hblocks halign hr (h fuel r hr hok))
      · refine absurd ⟨n', hfails, fun m hm => ?_⟩ hrefused
        rcases Nat.lt_or_eq_of_le hm with hlt | rfl
        · exact (hgo m hlt).1
        · exact hnot
  · rintro (hrefused | hplain) fuel r hr hret
    · exact absurd (hret.symm.trans (err_of_refused halign hrefused hr)) (by decide)
    · exact right_of_plain hchain hblocks hoffset hframe halign hplain hr hret

end Right

def twoClusterDisk : Bytes := fun p => if p = 516 then 3 else if p = 517 then 0 else 0xff

theorem read_right_two : ∃ r,
    fatFileRead smallVolume twoClusterDisk (fun _ => allGranted) (fun _ => true) 3 cyclicFile (fun _ => 0) 0x1000 0 0
      1024 = some r ∧ r.ret = OK ∧ ReadsRight smallVolume twoClusterDisk [2, 3] 0 0 1024 r := by
  have hchain : HasChain smallVolume twoClusterDisk (fun _ => allGranted) cyclicFile.startCluster [2, 3] := by
    refine ⟨fun m c hc => ?_, by decide, by decide⟩
    match m with
    | 0 => exact Option.some.inj hc
    | 1 =>
      obtain rfl : c = 3 := (Option.some.inj hc).symm
      decide
    | m + 2 => cases hc
  have hret : (fatFileRead smallVolume twoClusterDisk (fun _ => allGranted) (fun _ => true) 3 cyclicFile (fun _ => 0)
      0x1000 0 0 1024).map ReadResult.ret = some OK := by decide
  obtain ⟨r, hr, hok⟩ := Option.map_eq_some_iff.mp hret
  refine ⟨r, hr, hok, ?_⟩
  refine (read_right_iff hchain (by decide) (by decide) (by decide) rfl).mpr (.inr fun j c hj hc => ?_) 3 r hr hok
  have hj01 : j = 0 ∨ j = 1 := by
    have hsize : smallVolume.clusterSize = 512 := rfl
    rw [hsize] at hj
    omega
  rcases hj01 with rfl | rfl
  · cases hc
    exact ⟨fun m hm => rfl, by decide, by decide, by decide⟩
  · cases hc
    exact ⟨fun m hm => rfl, by decide, by decide, by decide⟩

def endedDisk : Bytes := fun _ => 0xff

def largeVolume : Fat :=
  { smallVolume with type := .fat32, spc := 128, nclusters := 131071, rootdir := 0, spc_pos := by decide
                     spc_lt := by decide }

def farFile : File := { zeroFile with startCluster := 65538 }

def farRead : Option ReadResult :=
  fatFileRead largeVolume endedDisk (fun _ => allGranted) (fun _ => true) 2 farFile (fun _ => 0) 0x10000 0 0 0x10000

theorem far_cluster_misread : farRead.map ReadResult.ret = some OK ∧
    farRead.map (fun r => r.reads.map BlockReq.blk) = some [3] ∧
    clusterPos largeVolume 65538 / largeVolume.blockSize = 0x800003 ∧
    ¬ ∀ (fat : Fat) disk lookups data file chain frame frameLen frameOffset fileOffset len,
      HasChain fat disk lookups file.startCluster chain →
      (∀ c ∈ chain, fat.start + clusterPos fat c / fat.blockSize < 2 ^ 32) → frameOffset < 2 ^ 32 →
      frameLen < 2 ^ 32 → fileOffset % fat.clusterSize = 0 → ∀ fuel r,
      fatFileRead fat disk lookups data fuel file frame frameLen frameOffset fileOffset len = some r →
      r.ret = OK → ReadsRight fat disk chain frameOffset fileOffset len r := by
  have hret : farRead.map ReadResult.ret = some OK := by decide
  refine ⟨hret, by decide, by decide, fun h => ?_⟩
  have hchain : HasChain largeVolume endedDisk (fun _ => allGranted) farFile.startCluster [65538] := by
    refine ⟨fun m c hc => ?_, by decide, by decide⟩
    cases m with
    | zero => exact Option.some.inj hc
    | succ m => cases hc
  have hblocks : ∀ c ∈ [65538], largeVolume.start + clusterPos largeVolume c / largeVolume.blockSize < 2 ^ 32 := by
    decide
  obtain ⟨r, hr, hok⟩ := Option.map_eq_some_iff.mp hret
  have hright := h largeVolume endedDisk (fun _ => allGranted) (fun _ => true) farFile [65538] (fun _ => 0) 0x10000 0 0
    0x10000 hchain hblocks (by decide) (by decide) rfl 2 r hr hok
  have hplain := plain_of_right hchain hblocks rfl hr hright
  exact absurd (hplain 0 65538 (by decide) rfl).2.1 (by decide)

end Agatha.FatFs
