import Agatha.Library.Tombstones
import Agatha.Fs.Survival

namespace Agatha.Fs

open Library Library.Bytes Library.LinkedList Library.Probing

def Lfs.names (lfs : Lfs) (i : ℕ) : Name := (lfs.inodes i).name

structure Findable (lfs : Lfs) : Prop where
  pos : 0 < lfs.nInodes
  probed : Probed (lfsHash lfs) lfs.nInodes lfs.slots
  unmet : Unmet (lfsHash lfs) lfs.nInodes lfs.slots lfs.names

structure SameEntries (lfs lfs' : Lfs) : Prop where
  nInodes : lfs'.nInodes = lfs.nInodes
  free : ∀ j, (lfs'.inodes j).free = (lfs.inodes j).free
  created : ∀ j, (lfs'.inodes j).created = (lfs.inodes j).created
  name : ∀ j, (lfs'.inodes j).name = (lfs.inodes j).name

variable {env env' : Env} {lfs lfs' lfs₀ lfs₁ lfs₂ found start : Lfs} {w w' w₀ w₁ w₂ w₃ : World} {i fuel fuel₁ off len : ℕ}
  {r : ℤ} {name : Name} {buf data : List UInt8} {xs ys l : List ℕ} {recs : ℕ → List Record} {s t : Lfs × World}
  {c : FileCall} {y : Inode} {p : Option ℕ} {f : ℕ → Option ℕ}

section Entries

theorem SameEntries.refl : SameEntries lfs lfs := ⟨rfl, fun _ => rfl, fun _ => rfl, fun _ => rfl⟩

theorem SameEntries.relink : SameEntries lfs (lfs.relink p f) := ⟨rfl, fun _ => rfl, fun _ => rfl, fun _ => rfl⟩

theorem SameEntries.trans (h : SameEntries lfs lfs₁) (h' : SameEntries lfs₁ lfs') : SameEntries lfs lfs' :=
  ⟨h'.nInodes.trans h.nInodes, fun j => (h'.free j).trans (h.free j), fun j => (h'.created j).trans (h.created j),
    fun j => (h'.name j).trans (h.name j)⟩

theorem SameEntries.set (hf : y.free = (lfs.inodes i).free) (hc : y.created = (lfs.inodes i).created)
    (hn : y.name = (lfs.inodes i).name) : SameEntries lfs (lfs.setInode i y) := by
  have hall : ∀ {β : Type} (g : Inode → β), g y = g (lfs.inodes i) →
      ∀ j, g ((lfs.setInode i y).inodes j) = g (lfs.inodes j) := by
    intro β g hg j
    rw [Lfs.setInode_inodes]
    split_ifs with hj
    · rw [hj, hg]
    · rfl
  exact ⟨rfl, hall Inode.free hf, hall Inode.created hc, hall Inode.name hn⟩

theorem SameEntries.slots (h : SameEntries lfs lfs') : lfs'.slots = lfs.slots := by
  funext j
  unfold Lfs.slots Inode.slot
  rw [h.free, h.created, h.name]

theorem SameEntries.names (h : SameEntries lfs lfs') : lfs'.names = lfs.names := by
  funext j
  exact h.name j

theorem SameEntries.hash (h : SameEntries lfs lfs') : lfsHash lfs' = lfsHash lfs := by
  funext name
  unfold lfsHash
  rw [h.nInodes]

theorem Findable.same (h : Findable lfs) (hs : SameEntries lfs lfs') : Findable lfs' := by
  refine ⟨?_, ?_, ?_⟩
  · rw [hs.nInodes]
    exact h.pos
  · rw [hs.hash, hs.nInodes, hs.slots]
    exact h.probed
  · rw [hs.hash, hs.nInodes, hs.slots, hs.names]
    exact h.unmet

theorem Unchanged.entries (h : Unchanged lfs w lfs' w') : SameEntries lfs lfs' := by
  refine ⟨h.layout.nInodes, fun j => ?_, fun j => ?_, fun j => ?_⟩
  all_goals
    obtain ⟨bs, hbs, -⟩ := h.inodes j
    rw [hbs]

theorem lfsAddPending_entries (h : lfsAddPending fuel lfs i = some lfs') : SameEntries lfs lfs' := by
  obtain ⟨p, f, rfl⟩ := lfsAddPending_relink h
  exact .relink

theorem lfsWrite_entries (h : lfsWrite env fuel lfs name buf off w = some (r, lfs', w')) : SameEntries lfs lfs' := by
  unfold lfsWrite at h
  split at h
  · cases h
  · cases h
    exact .refl
  · dsimp only at h
    split at h
    · cases h
    · rename_i found front rest made w₁ hseek
      by_cases hfound : found = false
      · rw [if_pos hfound] at h
        cases h
        exact .set rfl rfl rfl
      · rw [if_neg hfound] at h
        split at h
        · cases h
        · rename_i r₁ rest' made' w₂ hloop
          by_cases hr : r₁ ≠ OK
          · rw [if_pos hr] at h
            cases h
            exact .set rfl rfl rfl
          · rw [if_neg hr] at h
            obtain ⟨lfs₁, hadd, he⟩ := Option.map_eq_some_iff.mp h
            cases he
            refine SameEntries.trans ?_ (lfsAddPending_entries hadd)
            split_ifs
            · exact .set rfl rfl rfl
            · exact .set rfl rfl rfl

theorem lfsTrunc_entries (h : lfsTrunc fuel name len lfs = some (r, lfs')) : SameEntries lfs lfs' := by
  unfold lfsTrunc at h
  split at h
  · cases h
  · cases h
    exact .refl
  · dsimp only at h
    split_ifs at h
    · cases h
      exact .refl
    · cases h
      exact .refl
    · split at h
      · cases h
      · obtain ⟨lfs₁, hadd, he⟩ := Option.map_eq_some_iff.mp h
        cases he
        refine SameEntries.trans ?_ (lfsAddPending_entries hadd)
        exact .set rfl rfl rfl

theorem lfsRead_entries (h : lfsRead env lfs name off len w = some (r, data, lfs', w')) : SameEntries lfs lfs' := by
  unfold lfsRead at h
  split at h
  · cases h
  · cases h
    exact .refl
  · dsimp only at h
    split_ifs at h
    · cases h
      exact .refl
    · split at h
      · cases h
      · split_ifs at h
        · cases h
          exact .refl
        · obtain ⟨⟨r₁, data₁, rest, w₁⟩, -, he⟩ := Option.map_eq_some_iff.mp h
          cases he
          exact .set rfl rfl rfl

end Entries

section Runs

theorem setInode_names : (lfs.setInode i y).names = Function.update lfs.names i y.name := by
  funext j
  unfold Lfs.names
  rw [Lfs.setInode_inodes, Function.update_apply]
  split_ifs <;> rfl

theorem Findable.find_eq (h : Findable lfs) : lfsFindInode lfs name false =
    some (lookup (lfsHash lfs) lfs.nInodes lfs.slots name) := lfsFindInode_eq h.pos

theorem Findable.found_iff (h : Findable lfs) : lfsFindInode lfs name false = some (some i) ↔
    i < lfs.nInodes ∧ lfs.slots i = .used name := by
  rw [h.find_eq, Option.some_inj]
  exact h.probed.lookup_eq_some (lfsHash_lt h.pos)

theorem Findable.create (h : Findable lfs) (hc : lfsCreate fuel name lfs = some (r, lfs')) : Findable lfs' := by
  unfold lfsCreate at hc
  split at hc
  · cases hc
  · cases hc
    exact h
  · rename_i hnone
    split at hc
    · cases hc
    · cases hc
      exact h
    · rename_i i hvacant
      obtain ⟨lfs₁, hadd, he⟩ := Option.map_eq_some_iff.mp hc
      cases he
      refine Findable.same ?_ (lfsAddPending_entries hadd)
      have hnew : ∀ s < lfs.nInodes, lfs.slots s ≠ .used name := by
        intro s hs hu
        rw [h.found_iff.mpr ⟨hs, hu⟩] at hnone
        cases hnone
      rw [lfsFindInode_eq h.pos, if_pos rfl, Option.some_inj] at hvacant
      refine ⟨h.pos, ?_, ?_⟩
      · rw [setInode_slots]
        exact h.probed.insert (lfsHash_lt h.pos) hnew hvacant
      · rw [setInode_slots, setInode_names]
        exact h.unmet.insert (lfsHash_lt h.pos) hnew hvacant

theorem Findable.rm (h : Findable lfs) (hc : lfsRm fuel name lfs = some (r, lfs')) : Findable lfs' := by
  unfold lfsRm at hc
  split at hc
  · cases hc
  · cases hc
    exact h
  · rename_i i hf
    split_ifs at hc with hends
    obtain ⟨lfs₁, hadd, he⟩ := Option.map_eq_some_iff.mp hc
    cases he
    refine Findable.same ?_ (lfsAddPending_entries hadd)
    obtain ⟨-, hu⟩ := h.found_iff.mp hf
    obtain ⟨hfree, -, -⟩ := Inode.slot_eq_used.mp hu
    have hdead : Inode.slot { lfs.inodes i with blks := .nil, blkCnt := 0, created := false } = .dead := by
      unfold Inode.slot
      rw [if_neg (by simp [hfree]), if_neg (by simp)]
    refine ⟨h.pos, ?_, ?_⟩
    · rw [setInode_slots, hdead]
      exact h.probed.remove
    · rw [setInode_slots, hdead, setInode_names]
      -- the name stays
      have hsame : Function.update lfs.names i (lfs.inodes i).name = lfs.names := Function.update_eq_self i lfs.names
      rw [hsame]
      exact h.unmet.remove

theorem FileCall.run_findable (h : Findable lfs) (hc : c.run env fuel lfs w = some (r, lfs', w')) : Findable lfs' := by
  cases c with
  | write name buf off => exact h.same (lfsWrite_entries hc)
  | create name =>
    obtain ⟨⟨r₁, lfs₁⟩, hcall, he⟩ := Option.map_eq_some_iff.mp hc
    cases he
    exact h.create hcall
  | trunc name len =>
    obtain ⟨⟨r₁, lfs₁⟩, hcall, he⟩ := Option.map_eq_some_iff.mp hc
    cases he
    exact h.same (lfsTrunc_entries hcall)
  | rm name =>
    obtain ⟨⟨r₁, lfs₁⟩, hcall, he⟩ := Option.map_eq_some_iff.mp hc
    cases he
    exact h.rm hcall

theorem FsRun.findable (hd : Durable s.1 s.2 xs ys l recs) (hok : ∀ n, env.ok n = true) (hfuel : s.1.nInodes < fuel)
    (h : Findable s.1) (run : FsRun env fuel s t) : Findable t.1 := by
  induction run with
  | start => exact h
  | call c _ _ hc ih => exact FileCall.run_findable ih hc
  | read _ hr ih => exact ih.same (lfsRead_entries hr)
  | flush hrun hf ih =>
    obtain ⟨-, xs', ys', l', recs', hd'⟩ := FsRun.durable hd hok hfuel hrun
    obtain ⟨-, -, -, -, hsame⟩ := hd'.flush hf
    exact ih.same hsame.entries

theorem NewFs.findable (h : NewFs env fuel lfs w start w') : Findable start := by
  obtain ⟨hpos, hprobed, hnames⟩ := (kept_format h.format h.laid.inodes).directory
  refine ⟨hpos, hprobed, ⟨fun k s hs hu => ?_, fun k s hs hu => ?_⟩⟩
  · exact absurd ((hnames k).mp ⟨s, hs, hu⟩) (Set.notMem_empty k)
  · exact absurd ((hnames k).mp ⟨s, hs, hu⟩) (Set.notMem_empty k)

theorem Findable.restored (h : Findable lfs) (hn : found.nInodes = lfs.nInodes)
    (hall : ∀ j < lfs.nInodes, (lfs.inodes j).free = false → Restored lfs w j found w')
    (hf : lfsFindInode lfs name false = some (some i)) : lfsFindInode found name false = some (some i) := by
  have hhash : lfsHash found = lfsHash lfs := by
    funext name
    unfold lfsHash
    rw [hn]
  rw [lfsFindInode_eq (hn ▸ h.pos), if_neg (by decide), hhash, hn]
  apply congrArg some
  apply h.unmet.lookup_revived h.probed (lfsHash_lt h.pos)
  · intro s hs hused
    have hfree : (lfs.inodes s).free = false := by
      cases hfree : (lfs.inodes s).free with
      | true => exact absurd (Inode.slot_eq_free.mpr hfree) hused
      | false => rfl
    have hs' := hall s hs hfree
    exact Inode.slot_eq_used.mpr ⟨hs'.used, hs'.created, hs'.name⟩
  · exact Option.some_inj.mp (h.find_eq.symm.trans hf)

end Runs

section Recovery

/-- What was there is there again: every inode that was ever used, the files under their names, and all that could be
read. A removed file comes back without blocks. -/
structure Recovered (lfs : Lfs) (w : World) (found : Lfs) (w' : World) : Prop where
  nInodes : found.nInodes = lfs.nInodes
  inodes : ∀ i < lfs.nInodes, (lfs.inodes i).free = false → Restored lfs w i found w'
  names : ∀ name i, lfsFindInode lfs name false = some (some i) → lfsFindInode found name false = some (some i)
  reads : ∀ env env' name off len data lfs' w₁, (∀ n, env.ok n = true) → (∀ n, env'.ok n = true) →
    lfsRead env lfs name off len w = some (OK, data, lfs', w₁) →
    ∃ found' w₂, lfsRead env' found name off len w' = some (OK, data, found', w₂)

theorem lfsRead_file (h : lfsRead env lfs name off len w = some (OK, data, lfs', w')) :
    ∃ i, lfsFindInode lfs name false = some (some i) ∧ off + len ≤ (lfs.inodes i).lenReal := by
  cases hf : lfsFindInode lfs name false with
  | none =>
    rw [lfsRead, hf] at h
    cases h
  | some o =>
    cases o with
    | none =>
      rw [lfsRead, hf] at h
      cases h
    | some i =>
      refine ⟨i, rfl, not_lt.mp fun hlt => ?_⟩
      rw [lfsRead, hf] at h
      dsimp only at h
      rw [if_pos hlt] at h
      cases h

theorem Durable.recovered (h : Durable lfs w xs ys l recs) (hf : Findable lfs) (hdev : Device found w')
    (hn : found.nInodes = lfs.nInodes)
    (hall : ∀ i < lfs.nInodes, (lfs.inodes i).free = false → Restored lfs w i found w') : Recovered lfs w found w' := by
  refine ⟨hn, hall, fun name i hfind => hf.restored hn hall hfind, fun env env' name off len data lfs' w₁ hok hok' hread => ?_⟩
  obtain ⟨i, hfind, hlen⟩ := lfsRead_file hread
  obtain ⟨hi, hcreated⟩ := lfsFindInode_found hfind
  have hback := hall i hi (h.used i hi hcreated)
  have hlisted := (h.lists i hi hcreated).toListed
  have hcrc : (lfs.inodes i).blks.All (CrcOk lfs w) := (h.logged.safe hi).mono fun b hb => hb.crcOk
  rcases lfsRead_blocks name hok h.logged.device hcrc hfind hlisted.length hlen with ⟨⟨lfs₂, w₂, heq⟩, h1, h2, h3⟩ | ⟨hno, -⟩
  · rw [heq] at hread
    cases hread
    have hpos : 0 < (lfs.inodes i).blkCnt := by
      apply Nat.pos_of_ne_zero
      intro h0
      rw [h0] at h1
      exact absurd h1 (Nat.not_lt_zero _)
    obtain ⟨hlisted', hcrc', hcontent⟩ := hback.blks hpos
    have hreadable : (found.inodes i).Readable off len := by
      rw [← hback.blkCnt] at h1 h2 h3
      exact ⟨h1, h2, h3⟩
    obtain ⟨found', w₃, hread⟩ := (lfsRead_iff name hok' hdev hcrc' (hf.restored hn hall hfind) hlisted'
      (hback.lenReal ▸ hlen)).mpr hreadable
    rw [hcontent] at hread
    exact ⟨found', w₃, hread⟩
  · exact absurd hread (hno data lfs' w₁)

theorem files_survive (hnew : NewFs env fuel₁ lfs w start w₁) (hok : ∀ n, env.ok n = true) (hfuel : start.nInodes < fuel)
    (run : FsRun env fuel (start, w₁) (lfs₁, w₂)) (hflush : lfsFlush env fuel lfs₁ w₂ = some (OK, lfs', w')) :
    ∃ xs, Chain (segNext lfs') lfs'.segHead xs ∧ ∀ lfs₀ w₀ zs env' fuel', (∀ n, env'.ok n = true) →
      Reader lfs' w' xs.length lfs₀ w₀ zs → xs.length < fuel' →
      ∃ found w'', lfsScan env' fuel' lfs₀ w₀ = some (OK, found, w'') ∧ Recovered lfs₁ w₂ found w'' := by
  obtain ⟨-, xs, ys, l, recs, hd⟩ := FsRun.durable hnew.durable hok hfuel run
  have hfindable := FsRun.findable hnew.durable hok hfuel hnew.findable run
  obtain ⟨xs', ys', recs', hd', hsame⟩ := hd.flush hflush
  refine ⟨xs', hd'.logged.segs.list, fun lfs₀ w₀ zs env' fuel' hok' hreader hfuel' => ?_⟩
  obtain ⟨found, w'', hscan, hdisk, hlay, hall⟩ := hd'.logged.scan hok' hreader hfuel'
  have hdev := hlay.device hd'.logged.device ((hreader.disk.trans hdisk).blockSize)
  refine ⟨found, w'', hscan, hd.recovered hfindable hdev (hlay.nInodes.trans hsame.layout.nInodes) fun i hi hc => ?_⟩
  have hrestored := hall i (hsame.layout.nInodes ▸ hi) ((hsame.entries.free i).trans hc) List.not_mem_nil
  exact hrestored.before hsame hi

/-- The partition is set up again after such a flush: if the log has at most one segment `lfs_load` finds all, and
otherwise it does not come back. -/
theorem files_mounted {other : Lfs} {partLen : ℕ} (hnew : NewFs env fuel₁ lfs w start w₁) (hok : ∀ n, env.ok n = true)
    (hfuel : start.nSegs + start.nInodes < fuel) (run : FsRun env fuel (start, w₁) (lfs₁, w₂))
    (hflush : lfsFlush env fuel lfs₁ w₂ = some (OK, lfs', w')) (hdisk : SameDisk w' w₀)
    (hsetup : lfsSetup env' lfs.partOff partLen other w₀ = (OK, lfs₀, w₃)) (hok' : ∀ n, env'.ok n = true) :
    ∃ xs, Chain (segNext lfs') lfs'.segHead xs ∧ xs.length ≤ start.nSegs ∧
      (xs.length ≤ 1 → ∀ fuel', 1 < fuel' → ∃ found w'', lfsLoad env' fuel' lfs₀ w₃ = some (OK, found, w'') ∧
        Recovered lfs₁ w₂ found w'') ∧
      (1 < xs.length → ∀ fuel', lfsLoad env' fuel' lfs₀ w₃ = none) := by
  have hfuel₀ : start.nInodes < fuel := (Nat.le_add_left ..).trans_lt hfuel
  obtain ⟨hlay, xs, ys, l, recs, hd⟩ := FsRun.durable hnew.durable hok hfuel₀ run
  have hfindable := FsRun.findable hnew.durable hok hfuel₀ hnew.findable run
  have hsegs : 0 < lfs₁.nSegs := hlay.nSegs ▸ hnew.laid.segs
  have hfuel' : lfs₁.nSegs < fuel := by
    rw [hlay.nSegs]
    exact (Nat.le_add_right ..).trans_lt hfuel
  obtain ⟨xs', ys', recs', hd', hsame, hnewest⟩ := hd.flushed hflush hfuel'
  have hlog := hd'.logged
  have hoff : lfs'.partOff = lfs.partOff := (hsame.layout.partOff.trans hlay.partOff).trans hnew.partOff
  rw [← hoff] at hsetup
  obtain ⟨hoff', hsec, hdisk'⟩ := (hdisk.device hlog.device).setup hsetup
  have hremount : Remount lfs' w' xs' ys' lfs₀ w₃ :=
    ⟨hoff', hsec, hdisk.trans hdisk', hsame.layout.nSegs ▸ hsegs, hnewest⟩
  have hle : xs'.length ≤ start.nSegs := by
    have hlen := hlog.segs.length_le
    rw [hsame.layout.nSegs, hlay.nSegs] at hlen
    exact (Nat.le_add_right ..).trans hlen
  refine ⟨xs', hlog.segs.list, hle, fun hone fuel' hfuel => ?_, fun hlong fuel' => hlog.load_stuck hremount hok' hlong⟩
  obtain ⟨found, w'', hload, hs, hlay', hall⟩ := hlog.load hremount hok' hone hfuel
  have hdev := hlay'.device hlog.device hs.blockSize
  refine ⟨found, w'', hload, hd.recovered hfindable hdev (hlay'.nInodes.trans hsame.layout.nInodes) fun i hi hc => ?_⟩
  have hrestored := hall i (hsame.layout.nInodes ▸ hi) ((hsame.entries.free i).trans hc) List.not_mem_nil
  exact hrestored.before hsame hi

theorem files_survive_first : ∃ lfs₁ w₂ lfs' w' found w'', lfsFlush calmEnv 200 lfs₁ w₂ = some (OK, lfs', w') ∧
    lfsScan calmEnv 200 lfs' w' = some (OK, found, w'') ∧ (lfs₁.inodes 0).created = true ∧ Recovered lfs₁ w₂ found w'' := by
  obtain ⟨start, w₁, lfs₁, w₂, hnew, hrun, hn, hi, hcreated, hi₁, lfs', w', hflush⟩ := first_written
  have hlt : start.nInodes < 200 := by
    rw [hi]
    decide
  obtain ⟨hlay, xs, ys, l, recs, hd⟩ := FsRun.durable hnew.durable (fun _ => rfl) hlt hrun
  obtain ⟨xs', ys', recs', hd', hsame⟩ := hd.flush hflush
  obtain ⟨zs, hchain, hall⟩ := files_survive hnew (fun _ => rfl) hlt hrun hflush
  obtain rfl : zs = xs' := hchain.unique hd'.logged.segs.list
  have hreader : Reader lfs' w' zs.length lfs' w' zs :=
    ⟨.refl, ⟨rfl, rfl⟩, hchain, fun s hs => hd'.logged.segs.lt s (List.mem_append_left _ hs), hd'.logged.segs.order⟩
  have hlen : zs.length < 200 := by
    have hle := hd'.logged.segs.length_le
    rw [hsame.layout.nSegs, hlay.nSegs] at hle
    dsimp only at hle
    omega
  obtain ⟨found, w'', hscan, hfound⟩ := hall lfs' w' zs calmEnv 200 (fun _ => rfl) hreader hlen
  exact ⟨lfs₁, w₂, lfs', w', found, w'', hflush, hscan, hcreated, hfound⟩

theorem files_mounted_first : ∃ lfs₁ w₂ lfs' w' lfs₀ w₀ found w'', lfsFlush calmEnv 200 lfs₁ w₂ = some (OK, lfs', w') ∧
    lfsSetup calmEnv 0 4096 blankLfs w' = (OK, lfs₀, w₀) ∧ lfsLoad calmEnv 2 lfs₀ w₀ = some (OK, found, w'') ∧
    (lfs₁.inodes 0).created = true ∧ Recovered lfs₁ w₂ found w'' := by
  obtain ⟨start, w₁, lfs₁, w₂, hnew, hrun, hn, hi, hcreated, hi₁, lfs', w', hflush⟩ := first_written
  obtain ⟨xs, -, hle, hload, -⟩ := files_mounted hnew (fun _ => rfl) (by rw [hn, hi]; decide) hrun hflush
    ⟨rfl, rfl⟩ (rfl : lfsSetup calmEnv 0 4096 blankLfs w' = (OK, _, _)) fun _ => rfl
  obtain ⟨found, w'', hfound, hrecovered⟩ := hload (hn ▸ hle) 2 (by decide)
  exact ⟨lfs₁, w₂, lfs', w', _, _, found, w'', hflush, rfl, hfound, hcreated, hrecovered⟩

end Recovery

end Agatha.Fs
