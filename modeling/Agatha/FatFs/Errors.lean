import Agatha.FatFs.Reads

namespace Agatha.FatFs

open Library Library.Loops

def granted (answers : ℕ → Answers) : ℕ → Answers := fun i => (answers i).granted

def ReadReaches (fat : Fat) (disk : Bytes) (lookups : ℕ → Answers) (file : File) (fileOffset len n : ℕ) : Prop :=
  (∀ m ≤ n, clusterAt fat disk (granted lookups) file.startCluster m ≠ 0) ∧
    (n - fileOffset / fat.clusterSize) * fat.clusterSize < len

def NeededLookupFails (fat : Fat) (disk : Bytes) (lookups : ℕ → Answers) (file : File) (fileOffset len n : ℕ) : Prop :=
  ReadReaches fat disk lookups file fileOffset len n ∧
    (n + 1 - fileOffset / fat.clusterSize) * fat.clusterSize < len ∧ ¬(lookups n).ok = true

def NeededReadFails (fat : Fat) (disk : Bytes) (lookups : ℕ → Answers) (data : ℕ → Bool) (file : File)
    (frameLen frameOffset fileOffset len n : ℕ) : Prop :=
  ReadReaches fat disk lookups file fileOffset len n ∧
    ReadFails fat disk (granted lookups) data file frameLen frameOffset fileOffset n

def SearchReaches (fat : Fat) (disk : Bytes) (dirs lookups : ℕ → Answers) (name : Bytes) (first n : ℕ) : Prop :=
  ∀ m < n, dirStop fat disk (granted dirs) name m (clusterAt fat disk (granted lookups) first m) = none

def SearchCallFails (fat : Fat) (disk : Bytes) (dirs lookups : ℕ → Answers) (name : Bytes) (first n : ℕ) : Prop :=
  SearchReaches fat disk dirs lookups name first n ∧ clusterAt fat disk (granted lookups) first n ≠ 0 ∧
    (¬(dirs n).ok = true ∨ SearchReaches fat disk dirs lookups name first (n + 1) ∧ ¬(lookups n).ok = true)

def NeededSearchFails (fat : Fat) (disk : Bytes) (dirs lookups : ℕ → Answers) (parent : ℕ) (name : Bytes) : Prop :=
  if (fat.files parent).startCluster = 0 then ¬(dirs 0).ok = true
  else ∃ n, SearchCallFails fat disk dirs lookups name (fat.files parent).startCluster n

def NeededSizeFails (fat : Fat) (disk : Bytes) (sizes : ℕ → Answers) (e name : Bytes) (parent : ℕ) : Prop :=
  FileWalked fat e ∧ ∃ n, (∀ m ≤ n, clusterAt fat disk (granted sizes) (entryFile e name parent).startCluster m ≠ 0) ∧
    ¬(sizes n).ok = true

def NeededFileFails (fat : Fat) (disk : Bytes) (dirs lookups sizes : ℕ → Answers) (parent : ℕ) (name : Bytes) : Prop :=
  ∃ n e, SearchEnds fat disk (granted dirs) (granted lookups) parent name n (.found e) ∧
    NeededSizeFails fat disk sizes e name parent

variable {fat : Fat} {disk frame name e : Bytes} {dirs lookups sizes : ℕ → Answers} {data : ℕ → Bool} {file : File}
variable {frameLen frameOffset fileOffset len first parent n m c : ℕ} {r : Found}

section Read

theorem returns_err_iff (halign : fileOffset % fat.clusterSize = 0) :
    (∃ fuel r, fatFileRead fat disk lookups data fuel file frame frameLen frameOffset fileOffset len = some r ∧
      r.ret = ERR) ↔ ReadRefused fat disk lookups data file frameLen frameOffset fileOffset len := by
  constructor
  · rintro ⟨fuel, r, hr, herr⟩
    obtain ⟨n, -, hend, hgo⟩ := fatFileRead_ends halign hr
    obtain ⟨hok, -⟩ | ⟨-, hnot, hfails⟩ := hend
    · exact absurd (hok.symm.trans herr) (by decide)
    · refine ⟨n, hfails, fun m hm => ?_⟩
      rcases Nat.lt_or_eq_of_le hm with hlt | rfl
      · exact (hgo m hlt).1
      · exact hnot
  · intro hrefused
    obtain ⟨n, hfails, -⟩ := id hrefused
    obtain ⟨fuel, r, hr, -⟩ := fatFileRead_within_iff.mpr (.inr ⟨n, Nat.le_refl n, .inr hfails⟩)
    exact ⟨fuel, r, hr, err_of_refused halign hrefused hr⟩

theorem ReadReaches.mono (h : ReadReaches fat disk lookups file fileOffset len n) (hm : m ≤ n) :
    ReadReaches fat disk lookups file fileOffset len m := by
  refine ⟨fun k hk => h.1 k (Nat.le_trans hk hm), Nat.lt_of_le_of_lt (Nat.mul_le_mul_right _ ?_) h.2⟩
  omega

theorem turns_of_reaches (hlen : len < 2 ^ 32) (hreach : ReadReaches fat disk lookups file fileOffset len n)
    (hgood : ∀ m < n, ¬NeededLookupFails fat disk lookups file fileOffset len m) :
    (∀ m ≤ n, clusterAt fat disk lookups file.startCluster m =
      clusterAt fat disk (granted lookups) file.startCluster m) ∧
    ∀ m ≤ n, ¬ReadDone fat disk lookups file fileOffset len m := by
  have hok : ∀ m < n, (lookups m).ok = true := by
    intro m hm
    by_contra hfail
    refine hgood m hm ⟨hreach.mono (Nat.le_of_lt hm), Nat.lt_of_le_of_lt (Nat.mul_le_mul_right _ ?_) hreach.2, hfail⟩
    omega
  have heq : ∀ m ≤ n, clusterAt fat disk lookups file.startCluster m =
      clusterAt fat disk (granted lookups) file.startCluster m :=
    fun m hm => clusterAt_granted fun k hk => hok k (Nat.lt_of_lt_of_le hk hm)
  refine ⟨heq, fun m hm hdone => ?_⟩
  rcases hdone with hz | hfull
  · exact hreach.1 m hm (by rw [← heq m hm, hz])
  · have hlt := (hreach.mono hm).2
    unfold progress at hfull
    rw [Nat.mod_eq_of_lt (Nat.lt_trans hlt hlen)] at hfull
    omega

theorem readFails_congr (h : clusterAt fat disk lookups file.startCluster n =
    clusterAt fat disk (granted lookups) file.startCluster n) :
    ReadFails fat disk lookups data file frameLen frameOffset fileOffset n ↔
      ReadFails fat disk (granted lookups) data file frameLen frameOffset fileOffset n := by
  unfold ReadFails readRequest
  rw [h]

theorem read_reports_iff (hlen : len < 2 ^ 32) :
    ((∃ n, NeededLookupFails fat disk lookups file fileOffset len n ∨
        NeededReadFails fat disk lookups data file frameLen frameOffset fileOffset len n) →
      ReadRefused fat disk lookups data file frameLen frameOffset fileOffset len) ↔
    ∀ n, NeededLookupFails fat disk lookups file fileOffset len n →
      ∃ m ≤ n, NeededReadFails fat disk lookups data file frameLen frameOffset fileOffset len m := by
  classical
  constructor
  · intro h n hn
    by_contra hnone
    push Not at hnone
    have hex : ∃ n, NeededLookupFails fat disk lookups file fileOffset len n := ⟨n, hn⟩
    -- the first lookup that fails, before which no read does
    obtain ⟨hreach, hmore, hfail⟩ := Nat.find_spec hex
    have hmin : Nat.find hex ≤ n := Nat.find_min' hex hn
    obtain ⟨heq, -⟩ := turns_of_reaches hlen hreach fun m hm => Nat.find_min hex hm
    obtain ⟨k, hfails, hnot⟩ := h ⟨n, .inl hn⟩
    have hk : k ≤ Nat.find hex := by
      by_contra hlt
      refine hnot (Nat.find hex + 1) (Nat.lt_of_not_le hlt) (.inl ?_)
      rw [clusterAt_succ, fatNextCluster_failed hfail]
    exact hnone k (Nat.le_trans hk hmin) ⟨hreach.mono hk, (readFails_congr (heq k hk)).mp hfails⟩
  · intro h hex
    have hfirst := Nat.find_spec hex
    have hread : NeededReadFails fat disk lookups data file frameLen frameOffset fileOffset len (Nat.find hex) := by
      rcases hfirst with hlookup | hread
      · obtain ⟨m, hm, hread⟩ := h _ hlookup
        rcases Nat.lt_or_eq_of_le hm with hlt | rfl
        · exact absurd (.inr hread) (Nat.find_min hex hlt)
        · exact hread
      · exact hread
    obtain ⟨heq, hnot⟩ := turns_of_reaches hlen hread.1 fun m hm hl => Nat.find_min hex hm (.inl hl)
    exact ⟨Nat.find hex, (readFails_congr (heq _ (Nat.le_refl _))).mpr hread.2, hnot⟩

end Read

section Find

theorem dirStop_zero : dirStop fat disk dirs name n 0 = some .absent := if_pos rfl

theorem dirStop_granted (h : (dirs n).ok = true) : dirStop fat disk (granted dirs) name n c =
    dirStop fat disk dirs name n c := by
  unfold dirStop granted
  rw [granted_of_ok h]

theorem dirStop_failed (h : ¬(dirs n).ok = true) (hc : c ≠ 0) : dirStop fat disk dirs name n c = some .bad := by
  have hbad : fatFindFileInSectors fat disk (dirs n) (clusterToSector fat c) fat.spc name = .bad := if_neg h
  unfold dirStop
  rw [if_neg hc, hbad]

theorem turns_of_search (hreach : SearchReaches fat disk dirs lookups name first n)
    (hgood : ∀ m < n, ¬SearchCallFails fat disk dirs lookups name first m) :
    clusterAt fat disk lookups first n = clusterAt fat disk (granted lookups) first n ∧
      ∀ m < n, dirStop fat disk dirs name m (clusterAt fat disk lookups first m) = none := by
  have hto : ∀ m ≤ n, SearchReaches fat disk dirs lookups name first m :=
    fun m hm k hk => hreach k (Nat.lt_of_lt_of_le hk hm)
  have hcluster : ∀ m < n, clusterAt fat disk (granted lookups) first m ≠ 0 := by
    intro m hm hzero
    have hnone := hreach m hm
    rw [hzero, dirStop_zero] at hnone
    cases hnone
  have hdirs : ∀ m < n, (dirs m).ok = true := by
    intro m hm
    by_contra hfail
    exact hgood m hm ⟨hto m (Nat.le_of_lt hm), hcluster m hm, .inl hfail⟩
  have hlookups : ∀ m < n, (lookups m).ok = true := by
    intro m hm
    by_contra hfail
    exact hgood m hm ⟨hto m (Nat.le_of_lt hm), hcluster m hm, .inr ⟨hto (m + 1) hm, hfail⟩⟩
  have heq : ∀ m ≤ n, clusterAt fat disk lookups first m = clusterAt fat disk (granted lookups) first m :=
    fun m hm => clusterAt_granted fun k hk => hlookups k (Nat.lt_of_lt_of_le hk hm)
  refine ⟨heq n (Nat.le_refl n), fun m hm => ?_⟩
  rw [heq m (Nat.le_of_lt hm), ← dirStop_granted (hdirs m hm)]
  exact hreach m hm

theorem search_of_granted (hgood : ¬NeededSearchFails fat disk dirs lookups parent name)
    (h : SearchEnds fat disk (granted dirs) (granted lookups) parent name n (.found e)) :
    SearchEnds fat disk dirs lookups parent name n (.found e) := by
  unfold NeededSearchFails at hgood
  unfold SearchEnds at h ⊢
  by_cases hz : (fat.files parent).startCluster = 0
  · rw [if_pos hz] at hgood h ⊢
    have hdir : granted dirs 0 = dirs 0 := granted_of_ok (not_not.mp hgood)
    rwa [hdir] at h
  · rw [if_neg hz] at hgood h ⊢
    obtain ⟨hend, hgo⟩ := h
    obtain ⟨heq, hturns⟩ := turns_of_search hgo fun m _ hm => hgood ⟨m, hm⟩
    have hcluster : clusterAt fat disk (granted lookups) (fat.files parent).startCluster n ≠ 0 := by
      intro hzero
      have hfound : dirStop fat disk (granted dirs) name n _ = _ := hend
      rw [show after _ _ n = 0 from hzero, dirStop_zero] at hfound
      cases hfound
    have hdir : (dirs n).ok = true := by
      by_contra hfail
      exact hgood ⟨n, hgo, hcluster, .inl hfail⟩
    refine ⟨?_, hturns⟩
    rw [← dirStop_granted hdir]
    exact (congrArg _ heq).trans hend

theorem search_of_failed (hfails : NeededSearchFails fat disk dirs lookups parent name) :
    ∃ n r, SearchEnds fat disk dirs lookups parent name n r ∧ ∀ e, r ≠ .found e := by
  classical
  unfold NeededSearchFails at hfails
  unfold SearchEnds
  by_cases hz : (fat.files parent).startCluster = 0
  · rw [if_pos hz] at hfails
    simp only [if_pos hz]
    have hbad : fatFindFileInSectors fat disk (dirs 0) fat.rootdir fat.spc name = .bad := if_neg hfails
    refine ⟨0, .bad, ⟨rfl, hbad.symm⟩, fun e he => ?_⟩
    cases he
  · rw [if_neg hz] at hfails
    simp only [if_neg hz]
    -- the first turn of which a call fails
    obtain ⟨hreach, hcluster, hcall⟩ := Nat.find_spec hfails
    obtain ⟨heq, hturns⟩ := turns_of_search hreach fun m hm => Nat.find_min hfails hm
    by_cases hdir : (dirs (Nat.find hfails)).ok = true
    · obtain ⟨hnext, hlookup⟩ := hcall.resolve_left (not_not.mpr hdir)
      refine ⟨Nat.find hfails + 1, .absent, ⟨?_, fun m hm => ?_⟩, fun e he => by cases he⟩
      · rw [after_succ, fatNextCluster_failed hlookup, dirStop_zero]
      · rcases Nat.lt_succ_iff_lt_or_eq.mp hm with hlt | rfl
        · exact hturns m hlt
        · have hnone := hnext (Nat.find hfails) (Nat.lt_succ_self _)
          rw [dirStop_granted hdir, ← heq] at hnone
          exact hnone
    · refine ⟨Nat.find hfails, .bad, ⟨dirStop_failed hdir ?_, hturns⟩, fun e he => by cases he⟩
      rw [show after _ _ _ = _ from heq]
      exact hcluster

theorem SearchEnds.unique {r' : Found} (h : SearchEnds fat disk dirs lookups parent name n r)
    (h' : SearchEnds fat disk dirs lookups parent name m r') : n = m ∧ r = r' := by
  unfold SearchEnds at h h'
  by_cases hz : (fat.files parent).startCluster = 0
  · rw [if_pos hz] at h h'
    exact ⟨h.1.trans h'.1.symm, h.2.trans h'.2.symm⟩
  · rw [if_neg hz] at h h'
    exact h.unique h'

theorem find_of_not_found (hslot : cachedSlot fat parent name = none)
    (h : SearchEnds fat disk dirs lookups parent name n r) (hr : ∀ e, r ≠ .found e) :
    ∃ fuel r, fatFileFind fat disk dirs lookups sizes fuel parent name = some r ∧ r.ret = ERR := by
  obtain ⟨fuel, hs⟩ := searchDir_iff.mpr h
  refine ⟨fuel, { ret := ERR, entries := n, fat := fat }, ?_, rfl⟩
  unfold fatFileFind
  rw [hslot]
  dsimp only
  rw [hs]
  cases r with
  | found e => exact absurd rfl (hr e)
  | bad => rfl
  | absent => rfl

theorem find_of_walked (hslot : cachedSlot fat parent name = none)
    (h : SearchEnds fat disk dirs lookups parent name n (.found e)) (hw : FileWalked fat e) {fuel : ℕ} {x : FindResult}
    (hx : fatFileFind fat disk dirs lookups sizes fuel parent name = some x) : x.ret ≠ ERR := by
  unfold fatFileFind at hx
  rw [hslot] at hx
  dsimp only at hx
  cases hs : searchDir fat disk dirs lookups fuel parent name with
  | none =>
    rw [hs] at hx
    cases hx
  | some y =>
    obtain ⟨r, m⟩ := y
    obtain ⟨-, rfl⟩ := (searchDir_iff.mp ⟨fuel, hs⟩).unique h
    rw [hs] at hx
    obtain ⟨z, hz, rfl⟩ := Option.map_eq_some_iff.mp hx
    rw [fatFileFromEntry_eq, if_pos hw] at hz
    obtain ⟨w, -, rfl⟩ := Option.map_eq_some_iff.mp hz
    have hpos : (0 : ℤ) ≤ (fatFindFreeFid fat).1 := Int.natCast_nonneg _
    unfold ERR
    dsimp only
    omega

theorem find_reports_iff :
    (cachedSlot fat parent name = none →
      NeededSearchFails fat disk dirs lookups parent name ∨ NeededFileFails fat disk dirs lookups sizes parent name →
        ∃ fuel r, fatFileFind fat disk dirs lookups sizes fuel parent name = some r ∧ r.ret = ERR) ↔
    (cachedSlot fat parent name = none → NeededFileFails fat disk dirs lookups sizes parent name →
      NeededSearchFails fat disk dirs lookups parent name) := by
  constructor
  · intro h hslot hfile
    by_contra hgood
    obtain ⟨fuel, x, hx, herr⟩ := h hslot (.inr hfile)
    obtain ⟨n, e, hends, hsize⟩ := hfile
    exact find_of_walked hslot (search_of_granted hgood hends) hsize.1 hx herr
  · intro h hslot hneeded
    have hfails : NeededSearchFails fat disk dirs lookups parent name := by
      rcases hneeded with hfails | hfile
      · exact hfails
      · exact h hslot hfile
    obtain ⟨n, r, hends, hr⟩ := search_of_failed hfails
    exact find_of_not_found hslot hends hr

end Find

/-- Needed calls that fail make a read an error exactly when the file is not read in whole clusters, or no
lookup of it fails before a read does, and a search exactly when no lookup for the size of the file fails, or
the search fails before. -/
theorem errors_reported_iff (fat : Fat) (disk : Bytes) (dirs lookups sizes : ℕ → Answers) (data : ℕ → Bool)
    (file : File) (frame : Bytes) (frameLen frameOffset fileOffset len parent : ℕ) (name : Bytes)
    (hlen : len < 2 ^ 32) :
    (((∃ n, NeededLookupFails fat disk lookups file fileOffset len n ∨
        NeededReadFails fat disk lookups data file frameLen frameOffset fileOffset len n) →
      ∃ fuel r, fatFileRead fat disk lookups data fuel file frame frameLen frameOffset fileOffset len = some r ∧
        r.ret = ERR) ↔
      fileOffset % fat.clusterSize ≠ 0 ∨ ∀ n, NeededLookupFails fat disk lookups file fileOffset len n →
        ∃ m ≤ n, NeededReadFails fat disk lookups data file frameLen frameOffset fileOffset len m) ∧
    ((cachedSlot fat parent name = none →
      NeededSearchFails fat disk dirs lookups parent name ∨ NeededFileFails fat disk dirs lookups sizes parent name →
        ∃ fuel r, fatFileFind fat disk dirs lookups sizes fuel parent name = some r ∧ r.ret = ERR) ↔
      (cachedSlot fat parent name = none → NeededFileFails fat disk dirs lookups sizes parent name →
        NeededSearchFails fat disk dirs lookups parent name)) := by
  refine ⟨?_, find_reports_iff⟩
  by_cases halign : fileOffset % fat.clusterSize = 0
  · rw [or_iff_right (not_not.mpr halign), ← read_reports_iff hlen, returns_err_iff halign]
  · refine ⟨fun _ => .inl halign, fun _ _ => ?_⟩
    exact ⟨0, { ret := ERR, entries := 0, reads := [], frame := frame }, if_pos halign, rfl⟩

theorem errors_reported_second : ∃ fuel r,
    fatFileRead smallVolume twoClusterDisk (fun _ => allGranted) (fun n => n = 0) fuel cyclicFile (fun _ => 0) 0x1000 0 0
      1024 = some r ∧ r.ret = ERR := by
  have hreport := (errors_reported_iff smallVolume twoClusterDisk (fun _ => allGranted) (fun _ => allGranted)
    (fun _ => allGranted) (fun n => n = 0) cyclicFile (fun _ => 0) 0x1000 0 0 1024 0 (fun _ => 0) (by decide)).1
  refine hreport.mpr (.inr fun n hn => ?_) ⟨1, .inr ⟨⟨?_, by decide⟩, by decide, fun h => ?_⟩⟩
  · exact absurd rfl hn.2.2
  · intro m hm
    obtain rfl | rfl : m = 0 ∨ m = 1 := by omega
    · decide
    · decide
  · cases h.1

def firstLookupFails : ℕ → Answers := fun i => { allGranted with mem := i ≠ 0 }

def shortRead : Option ReadResult :=
  fatFileRead smallVolume twoClusterDisk firstLookupFails (fun _ => true) 2 cyclicFile (fun _ => 0) 0x1000 0 0 1024

theorem failed_lookup_short_read : shortRead.map ReadResult.ret = some OK ∧
    shortRead.map (fun r => r.reads.length) = some 1 ∧
    ¬ ∀ (fat : Fat) disk lookups data file (frame : Bytes) frameLen frameOffset fileOffset len,
      (∃ n, NeededLookupFails fat disk lookups file fileOffset len n ∨
        NeededReadFails fat disk lookups data file frameLen frameOffset fileOffset len n) →
      ∃ fuel r, fatFileRead fat disk lookups data fuel file frame frameLen frameOffset fileOffset len = some r ∧
        r.ret = ERR := by
  refine ⟨by decide, by decide, fun h => ?_⟩
  have hneeded : NeededLookupFails smallVolume twoClusterDisk firstLookupFails cyclicFile 0 1024 0 := by
    refine ⟨⟨fun m hm => ?_, by decide⟩, by decide, by decide⟩
    obtain rfl := Nat.le_zero.mp hm
    decide
  obtain ⟨n, hfails, hnot⟩ := (returns_err_iff (by decide)).mp
    (h smallVolume twoClusterDisk firstLookupFails (fun _ => true) cyclicFile (fun _ => 0) 0x1000 0 0 1024
      ⟨0, .inl hneeded⟩)
  -- the only read is that of turn 0, and it lies in the frame
  have hzero : n = 0 := by
    by_contra hpos
    refine hnot 1 (Nat.one_le_iff_ne_zero.mpr hpos) (.inl ?_)
    decide
  subst hzero
  exact hfails.2 (by decide)

end Agatha.FatFs
