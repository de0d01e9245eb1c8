import Agatha.FatFs.Volume

namespace Agatha.FatFs

open Library Library.Loops

variable {fat : Fat} {disk name frame : Bytes} {dirs lookups sizes : ℕ → Answers} {data : ℕ → Bool}
variable {file : File} {frameLen frameOffset fileOffset len first n parent bound : ℕ} {r : Found}

theorem clusterAt_succ : clusterAt fat disk lookups first (n + 1) =
    fatNextCluster fat disk (lookups n) (clusterAt fat disk lookups first n) := rfl

theorem clusterSize_pos : 0 < fat.clusterSize := Nat.mul_pos fat.spc_pos fat.bps_pos

section Size

theorem sizeStep_cluster :
    (after (sizeStep fat disk lookups) (first, 0) n).1 = clusterAt fat disk lookups first n := by
  induction n with
  | zero => rfl
  | succ n ih =>
    rw [after_succ, clusterAt_succ, ← ih]
    rfl

theorem sizeStop_isSome {s : ℕ × ℕ} : (sizeStop n s).isSome ↔ s.1 = 0 := by
  unfold sizeStop
  split_ifs with hz
  · exact ⟨fun _ => hz, fun _ => rfl⟩
  · exact ⟨fun h => (by cases h), fun h => absurd h hz⟩

theorem fatFileSize_within_iff :
    (∃ fuel r, fatFileSize fat disk lookups fuel file = some r ∧ r.2 ≤ bound) ↔
      ∃ n ≤ bound, clusterAt fat disk lookups file.startCluster n = 0 := by
  unfold fatFileSize
  by_cases hz : file.startCluster = 0
  · simp only [if_pos hz]
    exact ⟨fun _ => ⟨0, Nat.zero_le bound, hz⟩, fun _ => ⟨0, _, rfl, Nat.zero_le bound⟩⟩
  · simp only [if_neg hz]
    refine (within_map_iff (fun r : ℕ × ℕ × ℕ × ℕ => (r.1, r.2.1)) Prod.snd fun _ => rfl).trans ?_
    simp only [sizeStop_isSome, sizeStep_cluster]

end Size

section Read

def progress (fat : Fat) (fileOffset n : ℕ) : ℕ :=
  (n - fileOffset / fat.clusterSize) * fat.clusterSize % 2 ^ 32

def readRequest (fat : Fat) (disk : Bytes) (lookups : ℕ → Answers) (file : File) (frameOffset fileOffset n : ℕ) :
    BlockReq :=
  fatReadBlocks fat ((frameOffset + progress fat fileOffset n) % 2 ^ 32)
    (clusterToSector fat (clusterAt fat disk lookups file.startCluster n) * fat.bps % 2 ^ 32) fat.clusterSize

def readAt (fat : Fat) (disk : Bytes) (lookups : ℕ → Answers) (file : File) (frame : Bytes)
    (frameOffset fileOffset : ℕ) : ℕ → ReadState :=
  after (readStep fat disk lookups frameOffset)
    { cluster := file.startCluster, fileOffset := fileOffset, tlen := 0, reads := [], frame := frame }

variable {s : ReadState} {i : ℕ}

theorem readStep_skip (h : s.fileOffset > 0) : readStep fat disk lookups frameOffset i s =
    { s with
      cluster := fatNextCluster fat disk (lookups i) s.cluster
      fileOffset := s.fileOffset - fat.clusterSize } := if_pos h

theorem readStep_read (h : ¬s.fileOffset > 0) : readStep fat disk lookups frameOffset i s =
    { s with
      cluster := fatNextCluster fat disk (lookups i) s.cluster
      tlen := (s.tlen + fat.clusterSize) % 2 ^ 32
      reads := s.reads ++ [s.request fat frameOffset]
      frame := deliver fat disk (s.request fat frameOffset) s.frame } := if_neg h

theorem readAt_succ : readAt fat disk lookups file frame frameOffset fileOffset (n + 1) =
    readStep fat disk lookups frameOffset n (readAt fat disk lookups file frame frameOffset fileOffset n) := rfl

theorem readAt_cluster : (readAt fat disk lookups file frame frameOffset fileOffset n).cluster =
    clusterAt fat disk lookups file.startCluster n := by
  induction n with
  | zero => rfl
  | succ n ih =>
    rw [readAt_succ, clusterAt_succ, ← ih]
    by_cases h : (readAt fat disk lookups file frame frameOffset fileOffset n).fileOffset > 0
    · rw [readStep_skip h]
    · rw [readStep_read h]

theorem readAt_fileOffset (halign : fileOffset % fat.clusterSize = 0) :
    (readAt fat disk lookups file frame frameOffset fileOffset n).fileOffset =
      (fileOffset / fat.clusterSize - n) * fat.clusterSize := by
  induction n with
  | zero =>
    rw [Nat.sub_zero]
    exact (Nat.div_mul_cancel (Nat.dvd_of_mod_eq_zero halign)).symm
  | succ n ih =>
    rw [readAt_succ]
    by_cases hn : n < fileOffset / fat.clusterSize
    · have hpos : (fileOffset / fat.clusterSize - n) * fat.clusterSize > 0 :=
        Nat.mul_pos (by omega) clusterSize_pos
      rw [readStep_skip (by rw [ih]; exact hpos), ih,
        show fileOffset / fat.clusterSize - n = fileOffset / fat.clusterSize - (n + 1) + 1 by omega, Nat.succ_mul]
      exact Nat.add_sub_cancel ..
    · have hdone : fileOffset / fat.clusterSize - n = 0 := by omega
      rw [readStep_read (by rw [ih, hdone, Nat.zero_mul]; exact Nat.lt_irrefl 0), ih, hdone,
        show fileOffset / fat.clusterSize - (n + 1) = 0 by omega]

theorem readAt_skips (halign : fileOffset % fat.clusterSize = 0) :
    (readAt fat disk lookups file frame frameOffset fileOffset n).fileOffset > 0 ↔
      n < fileOffset / fat.clusterSize := by
  rw [readAt_fileOffset halign]
  constructor
  · intro h
    by_contra hn
    rw [Nat.sub_eq_zero_of_le (Nat.le_of_not_lt hn), Nat.zero_mul] at h
    exact Nat.lt_irrefl 0 h
  · exact fun hn => Nat.mul_pos (by omega) clusterSize_pos

theorem readAt_tlen (halign : fileOffset % fat.clusterSize = 0) :
    (readAt fat disk lookups file frame frameOffset fileOffset n).tlen = progress fat fileOffset n := by
  unfold progress
  induction n with
  | zero =>
    rw [Nat.zero_sub, Nat.zero_mul]
    rfl
  | succ n ih =>
    rw [readAt_succ]
    by_cases hn : n < fileOffset / fat.clusterSize
    · rw [readStep_skip ((readAt_skips halign).mpr hn), ih, Nat.sub_eq_zero_of_le (Nat.le_of_lt hn),
        Nat.sub_eq_zero_of_le hn]
    · rw [readStep_read fun h => hn ((readAt_skips halign).mp h), ih, Nat.succ_sub (Nat.le_of_not_lt hn),
        Nat.succ_mul, Nat.mod_add_mod]

theorem readAt_request (halign : fileOffset % fat.clusterSize = 0) :
    (readAt fat disk lookups file frame frameOffset fileOffset n).request fat frameOffset =
      readRequest fat disk lookups file frameOffset fileOffset n := by
  unfold ReadState.request readRequest
  rw [readAt_tlen halign, readAt_cluster]
  rfl

def ReadDone (fat : Fat) (disk : Bytes) (lookups : ℕ → Answers) (file : File) (fileOffset len n : ℕ) : Prop :=
  clusterAt fat disk lookups file.startCluster n = 0 ∨ len ≤ progress fat fileOffset n

def ReadFails (fat : Fat) (disk : Bytes) (lookups : ℕ → Answers) (data : ℕ → Bool) (file : File)
    (frameLen frameOffset fileOffset n : ℕ) : Prop :=
  fileOffset / fat.clusterSize ≤ n ∧
    ¬accepts fat frameLen (data n) (readRequest fat disk lookups file frameOffset fileOffset n)

instance : Decidable (ReadDone fat disk lookups file fileOffset len n) := instDecidableOr

instance : Decidable (ReadFails fat disk lookups data file frameLen frameOffset fileOffset n) := instDecidableAnd

theorem readStop_eq (halign : fileOffset % fat.clusterSize = 0) :
    readStop fat data frameOffset frameLen len n (readAt fat disk lookups file frame frameOffset fileOffset n) =
      if ReadDone fat disk lookups file fileOffset len n then some OK
      else if ReadFails fat disk lookups data file frameLen frameOffset fileOffset n then some ERR
      else none := by
  unfold readStop
  rw [readAt_cluster, readAt_tlen halign, readAt_request halign]
  have hiff : (clusterAt fat disk lookups file.startCluster n = 0 ∨ ¬progress fat fileOffset n < len) ↔
      ReadDone fat disk lookups file fileOffset len n := or_congr_right Nat.not_lt
  by_cases hdone : ReadDone fat disk lookups file fileOffset len n
  · rw [if_pos (hiff.mpr hdone), if_pos hdone]
  · rw [if_neg (mt hiff.mp hdone), if_neg hdone]
    by_cases hn : n < fileOffset / fat.clusterSize
    · rw [if_pos ((readAt_skips halign).mpr hn), if_neg fun h => absurd h.1 (Nat.not_le_of_lt hn)]
    · rw [if_neg fun h => hn ((readAt_skips halign).mp h)]
      by_cases hacc : accepts fat frameLen (data n) (readRequest fat disk lookups file frameOffset fileOffset n)
      · rw [if_pos hacc, if_neg fun h => h.2 hacc]
      · rw [if_neg hacc, if_pos (show ReadFails .. from ⟨Nat.le_of_not_lt hn, hacc⟩)]

theorem fatFileRead_within_iff :
    (∃ fuel r, fatFileRead fat disk lookups data fuel file frame frameLen frameOffset fileOffset len = some r ∧
      r.entries ≤ bound) ↔
    fileOffset % fat.clusterSize ≠ 0 ∨ ∃ n ≤ bound, ReadDone fat disk lookups file fileOffset len n ∨
      ReadFails fat disk lookups data file frameLen frameOffset fileOffset n := by
  unfold fatFileRead
  by_cases halign : fileOffset % fat.clusterSize = 0
  · have hcond : ¬fileOffset % (fat.spc * fat.bps) ≠ 0 := not_not.mpr halign
    simp only [if_neg hcond]
    rw [or_iff_right (not_not.mpr halign)]
    refine (within_map_iff (fun r : ℤ × ℕ × ReadState => (⟨r.1, r.2.1, r.2.2.reads, r.2.2.frame⟩ : ReadResult))
      ReadResult.entries fun _ => rfl).trans ?_
    refine exists_congr fun n => and_congr_right fun _ => ?_
    change (readStop fat data frameOffset frameLen len n
      (readAt fat disk lookups file frame frameOffset fileOffset n)).isSome ↔ _
    rw [readStop_eq halign]
    split_ifs with hdone hfails
    · exact ⟨fun _ => .inl hdone, fun _ => rfl⟩
    · exact ⟨fun _ => .inr hfails, fun _ => rfl⟩
    · exact ⟨fun h => (by cases h), fun h => absurd h (not_or.mpr ⟨hdone, hfails⟩)⟩
  · have hcond : fileOffset % (fat.spc * fat.bps) ≠ 0 := halign
    simp only [if_pos hcond]
    exact ⟨fun _ => .inl halign, fun _ => ⟨0, _, rfl, Nat.zero_le bound⟩⟩

end Read

section Find

variable {e : Bytes} {fuel fuel' : ℕ}

def SearchEnds (fat : Fat) (disk : Bytes) (dirs lookups : ℕ → Answers) (parent : ℕ) (name : Bytes) (n : ℕ)
    (r : Found) : Prop :=
  if (fat.files parent).startCluster = 0 then
    n = 0 ∧ r = fatFindFileInSectors fat disk (dirs 0) fat.rootdir fat.spc name
  else
    Ends (dirStop fat disk dirs name) (fun i => fatNextCluster fat disk (lookups i)) (fat.files parent).startCluster n r

def FileWalked (fat : Fat) (e : Bytes) : Prop := (fatFindFreeFid fat).1 ≠ 0 ∧ ¬isDirectory e

instance : Decidable (FileWalked fat e) := instDecidableAnd

theorem searchDir_iff : (∃ fuel, searchDir fat disk dirs lookups fuel parent name = some (r, n)) ↔
    SearchEnds fat disk dirs lookups parent name n r := by
  unfold searchDir SearchEnds
  by_cases hz : (fat.files parent).startCluster = 0
  · simp only [if_pos hz]
    constructor
    · rintro ⟨fuel, h⟩
      cases h
      exact ⟨rfl, rfl⟩
    · rintro ⟨rfl, rfl⟩
      exact ⟨0, rfl⟩
  · simp only [if_neg hz]
    constructor
    · rintro ⟨fuel, h⟩
      obtain ⟨⟨b, m, s⟩, hr, he⟩ := Option.map_eq_some_iff.mp h
      cases he
      exact (loop_iff.mp ⟨fuel, hr⟩).1
    · intro h
      exact ⟨n + 1, by rw [h.loop, Option.map_some]⟩

theorem searchDir_mono {x : Found × ℕ} (h : searchDir fat disk dirs lookups fuel parent name = some x)
    (hle : fuel ≤ fuel') : searchDir fat disk dirs lookups fuel' parent name = some x := by
  unfold searchDir at h ⊢
  by_cases hz : (fat.files parent).startCluster = 0
  · simp only [if_pos hz] at h ⊢
    exact h
  · simp only [if_neg hz] at h ⊢
    obtain ⟨y, hr, rfl⟩ := Option.map_eq_some_iff.mp h
    rw [loop_mono hr hle, Option.map_some]

theorem fatFileSize_mono {x : ℕ × ℕ} (h : fatFileSize fat disk lookups fuel file = some x) (hle : fuel ≤ fuel') :
    fatFileSize fat disk lookups fuel' file = some x := by
  unfold fatFileSize at h ⊢
  by_cases hz : file.startCluster = 0
  · rw [if_pos hz] at h ⊢
    exact h
  · rw [if_neg hz] at h ⊢
    obtain ⟨y, hr, rfl⟩ := Option.map_eq_some_iff.mp h
    rw [loop_mono hr hle, Option.map_some]

theorem fatFileFromEntry_eq : fatFileFromEntry fat disk sizes fuel e name parent =
    if FileWalked fat e then
      (fatFileSize fat disk sizes fuel (entryFile e name parent)).map fun r =>
        { ret := (fatFindFreeFid fat).1, entries := r.2
          fat := (fatFindFreeFid fat).2.setFile (fatFindFreeFid fat).1
            { entryFile e name parent with dsize := r.1 } }
    else if (fatFindFreeFid fat).1 = 0 then some { ret := ERR, entries := 0, fat := (fatFindFreeFid fat).2 }
    else
      some { ret := (fatFindFreeFid fat).1, entries := 0
             fat := (fatFindFreeFid fat).2.setFile (fatFindFreeFid fat).1
              { entryFile e name parent with
                attr := (entryFile e name parent).attr ||| fileAttrDir
                dsize := fat.spc * fat.bps
                size := 0 } } := by
  unfold fatFileFromEntry
  dsimp only
  by_cases hw : FileWalked fat e
  · rw [if_neg hw.1, if_neg hw.2, if_pos hw]
    rfl
  · rw [if_neg hw]
    by_cases hz : (fatFindFreeFid fat).1 = 0
    · rw [if_pos hz, if_pos hz]
    · have hd : isDirectory e := not_not.mp fun hd => hw ⟨hz, hd⟩
      rw [if_neg hz, if_pos hd, if_neg hz]
      rfl

theorem fatFileFromEntry_within_iff :
    (∃ fuel r, fatFileFromEntry fat disk sizes fuel e name parent = some r ∧ r.entries ≤ bound) ↔
      (FileWalked fat e → ∃ m ≤ bound, clusterAt fat disk sizes (entryFile e name parent).startCluster m = 0) := by
  simp only [fatFileFromEntry_eq]
  by_cases hw : FileWalked fat e
  · simp only [if_pos hw]
    rw [forall_prop_of_true hw, ← fatFileSize_within_iff]
    constructor
    · rintro ⟨fuel, r, hr, hle⟩
      obtain ⟨x, hx, rfl⟩ := Option.map_eq_some_iff.mp hr
      exact ⟨fuel, x, hx, hle⟩
    · rintro ⟨fuel, x, hx, hle⟩
      exact ⟨fuel, _, by rw [hx, Option.map_some], hle⟩
  · simp only [if_neg hw]
    refine ⟨fun _ h => absurd h hw, fun _ => ?_⟩
    by_cases hz : (fatFindFreeFid fat).1 = 0
    · simp only [if_pos hz]
      exact ⟨0, _, rfl, Nat.zero_le bound⟩
    · simp only [if_neg hz]
      exact ⟨0, _, rfl, Nat.zero_le bound⟩

theorem fatFileFromEntry_mono {x : FindResult} (h : fatFileFromEntry fat disk sizes fuel e name parent = some x)
    (hle : fuel ≤ fuel') : fatFileFromEntry fat disk sizes fuel' e name parent = some x := by
  rw [fatFileFromEntry_eq] at h ⊢
  by_cases hw : FileWalked fat e
  · rw [if_pos hw] at h ⊢
    obtain ⟨y, hy, rfl⟩ := Option.map_eq_some_iff.mp h
    rw [fatFileSize_mono hy hle, Option.map_some]
  · rw [if_neg hw] at h ⊢
    exact h

theorem fatFileFind_within_iff :
    (∃ fuel r, fatFileFind fat disk dirs lookups sizes fuel parent name = some r ∧ r.entries ≤ bound) ↔
    (cachedSlot fat parent name).isSome ∨ ∃ n r, SearchEnds fat disk dirs lookups parent name n r ∧ n ≤ bound ∧
      ∀ e, r = .found e → FileWalked fat e →
        ∃ m, n + m ≤ bound ∧ clusterAt fat disk sizes (entryFile e name parent).startCluster m = 0 := by
  unfold fatFileFind
  cases hslot : cachedSlot fat parent name with
  | some i => exact ⟨fun _ => .inl rfl, fun _ => ⟨0, _, rfl, Nat.zero_le bound⟩⟩
  | none =>
    dsimp only
    rw [Option.isSome_none, or_iff_right (by decide : ¬false = true)]
    constructor
    · rintro ⟨fuel, x, hx, hle⟩
      cases hs : searchDir fat disk dirs lookups fuel parent name with
      | none =>
        rw [hs] at hx
        cases hx
      | some y =>
        obtain ⟨r, n⟩ := y
        rw [hs] at hx
        refine ⟨n, r, searchDir_iff.mp ⟨fuel, hs⟩, ?_⟩
        cases r with
        | found e =>
          obtain ⟨z, hz, rfl⟩ := Option.map_eq_some_iff.mp hx
          have hle' : n + z.entries ≤ bound := hle
          refine ⟨by omega, fun e' he hw => ?_⟩
          cases he
          obtain ⟨m, hm, hc⟩ := fatFileFromEntry_within_iff.mp ⟨fuel, z, hz, Nat.le_refl _⟩ hw
          exact ⟨m, by omega, hc⟩
        | bad =>
          cases hx
          exact ⟨hle, fun e he => by cases he⟩
        | absent =>
          cases hx
          exact ⟨hle, fun e he => by cases he⟩
    · rintro ⟨n, r, hends, hn, hfile⟩
      obtain ⟨fuel, hs⟩ := searchDir_iff.mpr hends
      cases r with
      | found e =>
        have hwalk : FileWalked fat e → ∃ m ≤ bound - n,
            clusterAt fat disk sizes (entryFile e name parent).startCluster m = 0 := by
          intro hw
          obtain ⟨m, hm, hc⟩ := hfile e rfl hw
          exact ⟨m, by omega, hc⟩
        obtain ⟨fuel', z, hz, hle⟩ := fatFileFromEntry_within_iff.mpr hwalk
        refine ⟨max fuel fuel', { z with entries := n + z.entries }, ?_, ?_⟩
        · rw [searchDir_mono hs (Nat.le_max_left _ _)]
          dsimp only
          rw [fatFileFromEntry_mono hz (Nat.le_max_right _ _), Option.map_some]
        · dsimp only
          omega
      | bad => exact ⟨fuel, { ret := ERR, entries := n, fat := fat }, by rw [hs], hn⟩
      | absent => exact ⟨fuel, { ret := ERR, entries := n, fat := fat }, by rw [hs], hn⟩

end Find

/-- The walks that return after reading at most `nclusters` entries are those of chains that end in as many
links, and those that have what they look for by then, or fail. -/
theorem walks_end_iff (fat : Fat) (disk : Bytes) (dirs lookups sizes : ℕ → Answers) (data : ℕ → Bool) (file : File)
    (frame : Bytes) (frameLen frameOffset fileOffset len parent : ℕ) (name : Bytes) :
    ((∃ fuel r, fatFileSize fat disk lookups fuel file = some r ∧ r.2 ≤ fat.nclusters) ↔
      ∃ n ≤ fat.nclusters, clusterAt fat disk lookups file.startCluster n = 0) ∧
    ((∃ fuel r, fatFileRead fat disk lookups data fuel file frame frameLen frameOffset fileOffset len = some r ∧
        r.entries ≤ fat.nclusters) ↔
      fileOffset % fat.clusterSize ≠ 0 ∨ ∃ n ≤ fat.nclusters, ReadDone fat disk lookups file fileOffset len n ∨
        ReadFails fat disk lookups data file frameLen frameOffset fileOffset n) ∧
    ((∃ fuel r, fatFileFind fat disk dirs lookups sizes fuel parent name = some r ∧ r.entries ≤ fat.nclusters) ↔
      (cachedSlot fat parent name).isSome ∨ ∃ n r, SearchEnds fat disk dirs lookups parent name n r ∧
        n ≤ fat.nclusters ∧ ∀ e, r = .found e → FileWalked fat e →
          ∃ m, n + m ≤ fat.nclusters ∧ clusterAt fat disk sizes (entryFile e name parent).startCluster m = 0) :=
  ⟨fatFileSize_within_iff, fatFileRead_within_iff, fatFileFind_within_iff⟩

def smallVolume : Fat :=
  { blockSize := 512, start := 0, type := .fat16, bps := 512, spc := 1, nclusters := 100, reserved := 1
    rootdir := 2, dataarea := 3, files := fun _ => zeroFile, blockSize_pos := by decide, bps_pos := by decide
    bps_lt := by decide, spc_pos := by decide, spc_lt := by decide }

def cyclicDisk : Bytes := fun p => if p % 2 = 0 then 2 else 0

def allGranted : Answers := { mem := true, read := true, map := true, old := fun _ => 0 }

def cyclicFile : File := { zeroFile with startCluster := 2 }

theorem cyclic_clusterAt : clusterAt smallVolume cyclicDisk (fun _ => allGranted) 2 n = 2 := by
  have hnext : fatNextCluster smallVolume cyclicDisk allGranted 2 = 2 := by decide
  induction n with
  | zero => rfl
  | succ n ih => rw [clusterAt_succ, ih, hnext]

theorem cyclic_chain_unending :
    (∀ fuel, fatFileSize smallVolume cyclicDisk (fun _ => allGranted) fuel cyclicFile = none) ∧
    ¬ ∀ (fat : Fat) disk lookups file,
      ∃ fuel r, fatFileSize fat disk lookups fuel file = some r ∧ r.2 ≤ fat.nclusters := by
  have hnone : ∀ fuel, fatFileSize smallVolume cyclicDisk (fun _ => allGranted) fuel cyclicFile = none := by
    intro fuel
    by_contra hsome
    obtain ⟨r, hr⟩ := Option.ne_none_iff_exists'.mp hsome
    obtain ⟨n, -, hn⟩ := fatFileSize_within_iff.mp ⟨fuel, r, hr, Nat.le_refl _⟩
    rw [show cyclicFile.startCluster = 2 from rfl, cyclic_clusterAt] at hn
    cases hn
  refine ⟨hnone, fun h => ?_⟩
  obtain ⟨fuel, r, hr, -⟩ := h smallVolume cyclicDisk (fun _ => allGranted) cyclicFile
  rw [hnone fuel] at hr
  cases hr

end Agatha.FatFs
