import Agatha.Fs.Directory
import Agatha.Fs.Format

namespace Agatha.Fs

open Library Library.LinkedList Library.Probing

inductive DirCall
  | create (name : Name)
  | rm (name : Name)
  deriving DecidableEq

def DirCall.name : DirCall → Name
  | .create name => name
  | .rm name => name

def DirCall.run (fuel : ℕ) : DirCall → Lfs → Option (ℤ × Lfs)
  | .create name => lfsCreate fuel name
  | .rm name => lfsRm fuel name

/-- The calls made since `start` with what they returned, the latest one first. -/
inductive DirRun (fuel : ℕ) (start : Lfs) : List (DirCall × ℤ) → Lfs → Prop
  | start : DirRun fuel start [] start
  | call {calls : List (DirCall × ℤ)} {lfs lfs' : Lfs} {c : DirCall} {r : ℤ}
      (run : DirRun fuel start calls lfs) (h : c.run fuel lfs = some (r, lfs')) :
      DirRun fuel start ((c, r) :: calls) lfs'

def lastMade (calls : List (DirCall × ℤ)) (name : Name) : Prop :=
  calls.find? (fun c => c.1.name = name ∧ c.2 = OK) = some (.create name, OK)

variable {fuel : ℕ} {start lfs lfs' : Lfs} {name name' : Name} {calls : List (DirCall × ℤ)} {r : ℤ}

structure Directory (names : Set Name) (lfs : Lfs) : Prop where
  inodes_pos : 0 < lfs.nInodes
  probed : Probed (lfsHash lfs) lfs.nInodes lfs.slots
  names_eq : ∀ name, (∃ s < lfs.nInodes, lfs.slots s = .used name) ↔ name ∈ names

variable {names : Set Name}

theorem Directory.find_eq (h : Directory names lfs) : lfsFindInode lfs name false =
    some (lookup (lfsHash lfs) lfs.nInodes lfs.slots name) := lfsFindInode_eq h.inodes_pos

theorem Directory.find_isSome (h : Directory names lfs) :
    (∃ i, lfsFindInode lfs name false = some (some i)) ↔ name ∈ names := by
  rw [h.find_eq, ← h.names_eq]
  constructor
  · rintro ⟨i, hi⟩
    obtain ⟨hlt, hu⟩ := (h.probed.lookup_eq_some (lfsHash_lt h.inodes_pos)).mp (Option.some.inj hi)
    exact ⟨i, hlt, hu⟩
  · rintro ⟨i, hlt, hu⟩
    exact ⟨i, congrArg some ((h.probed.lookup_eq_some (lfsHash_lt h.inodes_pos)).mpr ⟨hlt, hu⟩)⟩

theorem Directory.relink {p : Option ℕ} {f : ℕ → Option ℕ} (h : Directory names lfs) :
    Directory names (lfs.relink p f) :=
  ⟨h.inodes_pos, h.probed, h.names_eq⟩

theorem setInode_slots {i : ℕ} {x : Inode} :
    (lfs.setInode i x).slots = Function.update lfs.slots i x.slot := by
  funext j
  by_cases hj : j = i
  · rw [hj, Function.update_self]
    unfold Lfs.slots
    rw [Lfs.setInode_inodes, if_pos rfl]
  · rw [Function.update_of_ne hj]
    unfold Lfs.slots
    rw [Lfs.setInode_inodes, if_neg hj]

theorem Directory.lookup_setInode {names' : Set Name} {i : ℕ} {x : Inode} (h : Directory names lfs)
    (h' : Directory names' (lfs.setInode i x)) (hold : lfs.slots i ≠ .used name)
    (hnew : x.slot ≠ .used name) :
    lfsFindInode (lfs.setInode i x) name false = lfsFindInode lfs name false := by
  rw [h.find_eq, h'.find_eq]
  apply congrArg some
  apply h.probed.lookup_congr h'.probed (lfsHash_lt h.inodes_pos)
  intro s _
  rw [setInode_slots, Function.update_apply]
  by_cases hs : s = i
  · rw [if_pos hs, hs]
    exact ⟨fun hu => absurd hu hold, fun hu => absurd hu hnew⟩
  · rw [if_neg hs]

theorem Directory.made {i : ℕ} {x : Inode} (h : Directory names lfs)
    (hi : vacancy (lfsHash lfs) lfs.nInodes lfs.slots name = some i) (hnew : name ∉ names)
    (hx : x.slot = .used name) : Directory (insert name names) (lfs.setInode i x) := by
  have hh : lfsHash lfs name < lfs.nInodes := lfsHash_lt h.inodes_pos
  obtain ⟨hlt, hvac, -⟩ := (vacancy_eq_some hh).mp hi
  have hunused : ∀ s < lfs.nInodes, lfs.slots s ≠ .used name :=
    fun s hs hu => hnew ((h.names_eq name).mp ⟨s, hs, hu⟩)
  refine ⟨h.inodes_pos, ?_, ?_⟩
  · rw [setInode_slots, hx]
    exact h.probed.insert hh hunused hi
  · intro name'
    rw [setInode_slots, hx, Set.mem_insert_iff, ← h.names_eq]
    constructor
    · rintro ⟨s, hs, hu⟩
      rw [Function.update_apply] at hu
      split_ifs at hu with he
      · injection hu with hu
        exact .inl hu.symm
      · exact .inr ⟨s, hs, hu⟩
    · rintro (rfl | ⟨s, hs, hu⟩)
      · exact ⟨i, hlt, Function.update_self ..⟩
      · refine ⟨s, hs, ?_⟩
        rw [Function.update_of_ne]
        · exact hu
        · rintro rfl
          rw [hu] at hvac
          cases hvac

theorem Directory.removed {i : ℕ} {x : Inode} (h : Directory names lfs) (hi : i < lfs.nInodes)
    (hu : lfs.slots i = .used name) (hx : x.slot = .dead) :
    Directory (names \ {name}) (lfs.setInode i x) := by
  refine ⟨h.inodes_pos, ?_, ?_⟩
  · rw [setInode_slots, hx]
    exact h.probed.remove
  · intro name'
    rw [setInode_slots, hx, Set.mem_sdiff, Set.mem_singleton_iff, ← h.names_eq]
    constructor
    · rintro ⟨s, hs, hu'⟩
      rw [Function.update_apply] at hu'
      split_ifs at hu' with he
      refine ⟨⟨s, hs, hu'⟩, ?_⟩
      rintro rfl
      exact he (h.probed.unique _ s i hs hi hu' hu)
    · rintro ⟨⟨s, hs, hu'⟩, hne⟩
      refine ⟨s, hs, ?_⟩
      rw [Function.update_of_ne]
      · exact hu'
      · rintro rfl
        rw [hu] at hu'
        injection hu' with he
        exact hne he.symm

structure Inode.Tidy (x : Inode) : Prop where
  blks : x.blks = .nil
  created : x.free = true → x.created = false

def Lfs.full (lfs : Lfs) : Prop := ∀ i < lfs.nInodes, ∃ name, lfs.slots i = .used name

theorem lfsCreate_err (h : Directory names lfs) (he : name ∈ names ∨ lfs.full) :
    lfsCreate fuel name lfs = some (ERR, lfs) := by
  unfold lfsCreate
  by_cases hname : name ∈ names
  · obtain ⟨i, hi⟩ := h.find_isSome.mpr hname
    rw [hi]
  · have hnone : lfsFindInode lfs name false = some none := by
      cases hl : lookup (lfsHash lfs) lfs.nInodes lfs.slots name with
      | none => rw [h.find_eq, hl]
      | some i => exact absurd (h.find_isSome.mp ⟨i, h.find_eq.trans (congrArg some hl)⟩) hname
    have hvac : lfsFindInode lfs name true = some none := by
      rw [lfsFindInode_eq h.inodes_pos, if_pos rfl]
      exact congrArg some ((vacancy_eq_none (lfsHash_lt h.inodes_pos)).mpr (he.resolve_left hname))
    rw [hnone]
    dsimp only
    rw [hvac]

theorem lfsCreate_eq (fuel : ℕ) (h : Directory names lfs) (hname : name ∉ names) (hfull : ¬lfs.full) :
    ∃ i x, vacancy (lfsHash lfs) lfs.nInodes lfs.slots name = some i ∧ x.slot = .used name ∧
      x.Tidy ∧ x.wnext = (lfs.inodes i).wnext ∧ lfsCreate fuel name lfs =
        (lfsAddPending fuel (lfs.setInode i x) i).map fun lfs => (OK, lfs) := by
  have hnone : lfsFindInode lfs name false = some none := by
    cases hl : lookup (lfsHash lfs) lfs.nInodes lfs.slots name with
    | none => rw [h.find_eq, hl]
    | some i => exact absurd (h.find_isSome.mp ⟨i, h.find_eq.trans (congrArg some hl)⟩) hname
  cases hvac : vacancy (lfsHash lfs) lfs.nInodes lfs.slots name with
  | none => exact absurd ((vacancy_eq_none (lfsHash_lt h.inodes_pos)).mp hvac) hfull
  | some i =>
    refine ⟨i, { lfs.inodes i with
      created := true, free := false, name := name, blkCnt := 0, lenReal := 0, blks := .nil },
      rfl, rfl, ⟨rfl, fun hf => by cases hf⟩, rfl, ?_⟩
    unfold lfsCreate
    rw [hnone]
    dsimp only
    rw [lfsFindInode_eq h.inodes_pos, if_pos rfl, hvac]

theorem lfsRm_err (h : Directory names lfs) (hname : name ∉ names) :
    lfsRm fuel name lfs = some (ERR, lfs) := by
  unfold lfsRm
  cases hl : lookup (lfsHash lfs) lfs.nInodes lfs.slots name with
  | none => rw [h.find_eq, hl]
  | some i => exact absurd (h.find_isSome.mp ⟨i, h.find_eq.trans (congrArg some hl)⟩) hname

theorem lfsRm_eq (fuel : ℕ) (h : Directory names lfs) (hname : name ∈ names) :
    ∃ i x, i < lfs.nInodes ∧ lfs.slots i = .used name ∧ x.slot = .dead ∧ x.Tidy ∧
      x.wnext = (lfs.inodes i).wnext ∧ lfsRm fuel name lfs =
        if (lfs.inodes i).blks.ends = false then none
        else (lfsAddPending fuel (lfs.setInode i x) i).map fun lfs => (OK, lfs) := by
  obtain ⟨i, hi⟩ := h.find_isSome.mpr hname
  obtain ⟨hlt, hu⟩ := (h.probed.lookup_eq_some (lfsHash_lt h.inodes_pos)).mp
    (Option.some.inj (h.find_eq.symm.trans hi))
  obtain ⟨hfree, -, -⟩ := Inode.slot_eq_used.mp hu
  refine ⟨i, { lfs.inodes i with blks := .nil, blkCnt := 0, created := false }, hlt, hu, ?_,
    ⟨rfl, fun _ => rfl⟩, rfl, ?_⟩
  · unfold Inode.slot
    rw [if_neg (by simp [hfree]), if_neg (by simp)]
  · unfold lfsRm
    rw [hi]

def DirCall.effect (c : DirCall) (r : ℤ) (names : Set Name) : Set Name :=
  if r = OK then
    match c with
    | .create name => insert name names
    | .rm name => names \ {name}
  else names

def DirCall.fails (names : Set Name) (lfs : Lfs) : DirCall → Prop
  | .create name => name ∈ names ∨ lfs.full
  | .rm name => name ∉ names

theorem DirCall.run_cases (c : DirCall) (fuel : ℕ) (h : Directory names lfs) :
    c.fails names lfs ∧ c.run fuel lfs = some (ERR, lfs) ∨
    ¬c.fails names lfs ∧ ∃ i x, i < lfs.nInodes ∧ x.Tidy ∧ x.wnext = (lfs.inodes i).wnext ∧
      Directory (c.effect OK names) (lfs.setInode i x) ∧
      (∀ name, name ≠ c.name → lfs.slots i ≠ .used name ∧ x.slot ≠ .used name) ∧
      (c.run fuel lfs = none ∧ (lfs.inodes i).blks.ends = false ∨
        c.run fuel lfs = (lfsAddPending fuel (lfs.setInode i x) i).map fun lfs => (OK, lfs)) := by
  by_cases hf : c.fails names lfs
  · left
    cases c with
    | create name => exact ⟨hf, lfsCreate_err h hf⟩
    | rm name => exact ⟨hf, lfsRm_err h hf⟩
  · right
    refine ⟨hf, ?_⟩
    cases c with
    | create name =>
      obtain ⟨hname, hfull⟩ := not_or.mp hf
      obtain ⟨i, x, hvac, hx, htidy, hnext, hrun⟩ := lfsCreate_eq fuel h hname hfull
      obtain ⟨hlt, hv, -⟩ := (vacancy_eq_some (lfsHash_lt h.inodes_pos)).mp hvac
      refine ⟨i, x, hlt, htidy, hnext, h.made hvac hname hx, fun name' hne => ⟨fun hu => ?_, fun hu => ?_⟩,
        .inr hrun⟩
      · rw [hu] at hv
        cases hv
      · rw [hx] at hu
        injection hu with he
        exact hne he.symm
    | rm name =>
      obtain ⟨i, x, hlt, hu, hx, htidy, hnext, hrun⟩ := lfsRm_eq fuel h (not_not.mp hf)
      refine ⟨i, x, hlt, htidy, hnext, h.removed hlt hu hx, fun name' hne => ⟨fun hu' => ?_, fun hu' => ?_⟩, ?_⟩
      · rw [hu] at hu'
        injection hu' with he
        exact hne he.symm
      · rw [hx] at hu'
        cases hu'
      · change lfsRm fuel name lfs = _ ∧ _ ∨ lfsRm fuel name lfs = _
        rw [hrun]
        by_cases he : (lfs.inodes i).blks.ends = false
        · rw [if_pos he]
          exact .inl ⟨rfl, he⟩
        · rw [if_neg he]
          exact .inr rfl

structure Kept (names : Set Name) (lfs : Lfs) : Prop where
  directory : Directory names lfs
  tidy : ∀ i < lfs.nInodes, (lfs.inodes i).Tidy

def Lfs.Queued (lfs : Lfs) : Prop :=
  ∃ l, Chain lfs.wnext lfs.pending l ∧ ∀ i ∈ l, i < lfs.nInodes

theorem setInode_wnext_eq {i : ℕ} {x : Inode} (hx : x.wnext = (lfs.inodes i).wnext) :
    (lfs.setInode i x).wnext = lfs.wnext := by
  funext j
  unfold Lfs.wnext
  rw [Lfs.setInode_inodes]
  split_ifs with hj
  · rw [hj, hx]
  · rfl

theorem Lfs.Queued.add {i : ℕ} {x : Inode} (h : lfs.Queued) (hx : x.wnext = (lfs.inodes i).wnext)
    (hi : i < lfs.nInodes) (hfuel : lfs.nInodes < fuel) :
    ∃ lfs', lfsAddPending fuel (lfs.setInode i x) i = some lfs' ∧ lfs'.Queued := by
  obtain ⟨l, hc, hl⟩ := h
  have hlen : l.length ≤ lfs.nInodes := by
    have hsub : l ⊆ List.range lfs.nInodes := fun j hj => List.mem_range.mpr (hl j hj)
    have hle := (List.subperm_of_subset hc.nodup hsub).length_le
    rwa [List.length_range] at hle
  have hc' : Chain (lfs.setInode i x).wnext (lfs.setInode i x).pending l := by
    rw [setInode_wnext_eq hx]
    exact hc
  obtain ⟨p, f, hadd, hchain⟩ := lfsAddPending_eq (i := i) hc' hl (Nat.lt_of_le_of_lt hlen hfuel)
  refine ⟨_, hadd, i :: l.erase i, hchain, fun j hj => ?_⟩
  rcases List.mem_cons.mp hj with rfl | hj
  · exact hi
  · exact hl j (List.mem_of_mem_erase hj)

theorem Kept.total (c : DirCall) (h : Kept names lfs) (hq : lfs.Queued) (hfuel : lfs.nInodes < fuel) :
    (c.run fuel lfs).isSome := by
  rcases c.run_cases fuel h.directory with ⟨hf, hrun⟩ |
    ⟨hf, i, x, hlt, htidy, hnext, hdir, hother, ⟨-, hends⟩ | hrun⟩
  · rw [hrun]
    rfl
  · rw [(h.tidy i hlt).blks] at hends
    cases hends
  · obtain ⟨lfs', hadd, -⟩ := hq.add hnext hlt hfuel
    rw [hrun, hadd]
    rfl

theorem Kept.call {c : DirCall} (h : Kept names lfs) (hc : c.run fuel lfs = some (r, lfs')) :
    Kept (c.effect r names) lfs' ∧ lfs'.nInodes = lfs.nInodes ∧ (r ≠ OK ↔ c.fails names lfs) ∧ (lfs.nInodes < fuel → lfs.Queued → lfs'.Queued) ∧
      ∀ name, name ≠ c.name → lfsFindInode lfs' name false = lfsFindInode lfs name false := by
  rcases c.run_cases fuel h.directory with ⟨hf, hrun⟩ |
    ⟨hf, i, x, hlt, htidy, hnext, hdir, hother, hrun⟩
  · rw [hrun] at hc
    cases hc
    exact ⟨h, rfl, ⟨fun _ => hf, fun _ => by decide⟩, fun _ => id, fun _ _ => rfl⟩
  · rcases hrun with ⟨hnone, -⟩ | hrun
    · rw [hnone] at hc
      cases hc
    · rw [hrun, Option.map_eq_some_iff] at hc
      obtain ⟨lfs₁, hadd, he⟩ := hc
      cases he
      obtain ⟨p, f, hre⟩ := lfsAddPending_relink hadd
      have hdir' : Directory (c.effect OK names) lfs' := hre ▸ hdir.relink
      refine ⟨⟨hdir', ?_⟩, by rw [hre]; rfl, ⟨fun hr => absurd rfl hr, fun h => absurd h hf⟩, ?_, ?_⟩
      · intro j hj
        rw [hre] at hj ⊢
        have hj' := Lfs.setInode_inodes lfs i j x
        split_ifs at hj' with he
        · exact ⟨(congrArg Inode.blks hj').trans htidy.blks,
            fun hf => (congrArg Inode.created hj').trans
              (htidy.created ((congrArg Inode.free hj').symm.trans hf))⟩
        · have ht := h.tidy j hj
          exact ⟨(congrArg Inode.blks hj').trans ht.blks,
            fun hf => (congrArg Inode.created hj').trans
              (ht.created ((congrArg Inode.free hj').symm.trans hf))⟩
      · intro hfuel hq
        obtain ⟨lfs₂, hadd', hq'⟩ := hq.add hnext hlt hfuel
        rw [hadd] at hadd'
        cases hadd'
        exact hq'
      · intro name hne
        have hkeep := h.directory.lookup_setInode hdir (hother name hne).1 (hother name hne).2
        rw [← hkeep, hdir.find_eq, hdir'.find_eq, hre]
        rfl

theorem lastMade_cons {c : DirCall} :
    {name | lastMade ((c, r) :: calls) name} = c.effect r {name | lastMade calls name} := by
  ext name
  unfold DirCall.effect lastMade
  by_cases hr : r = OK
  · rw [if_pos hr, Set.mem_ofPred_eq, List.find?_cons]
    cases c with
    | create name' =>
      by_cases hname : name' = name
      · simp [DirCall.name, hname, hr]
      · simp [DirCall.name, hname, hr, Ne.symm hname]
    | rm name' =>
      by_cases hname : name' = name
      · simp [DirCall.name, hname, hr]
      · simp [DirCall.name, hname, hr, Ne.symm hname]
  · rw [if_neg hr, Set.mem_ofPred_eq, List.find?_cons]
    simp [hr]

theorem DirRun.kept (run : DirRun fuel start calls lfs) (h : Kept ∅ start) :
    Kept {name | lastMade calls name} lfs ∧ lfs.nInodes = start.nInodes ∧
      (start.nInodes < fuel → start.Queued → lfs.Queued) := by
  induction run with
  | start =>
    have hnone : {name | lastMade [] name} = ∅ := by
      ext name
      simp [lastMade]
    rw [hnone]
    exact ⟨h, rfl, fun _ => id⟩
  | call _ hcall ih =>
    obtain ⟨hk, hn, hq⟩ := ih
    obtain ⟨hk', hn', -, hq', -⟩ := hk.call hcall
    rw [lastMade_cons]
    exact ⟨hk', hn'.trans hn, fun hfuel hs => hq' (hn ▸ hfuel) (hq hfuel hs)⟩

theorem Kept.slot_used {i : ℕ} (h : Kept names lfs) (hi : i < lfs.nInodes) :
    lfs.slots i = .used name ↔ (lfs.inodes i).created = true ∧ (lfs.inodes i).name = name := by
  unfold Lfs.slots
  rw [Inode.slot_eq_used]
  constructor
  · exact fun ⟨_, hu⟩ => hu
  · intro hu
    refine ⟨?_, hu⟩
    cases hf : (lfs.inodes i).free with
    | false => rfl
    | true => exact absurd (hu.1.symm.trans ((h.tidy i hi).created hf)) (by decide)

theorem Kept.full_iff (h : Kept names lfs) :
    lfs.full ↔ ∀ i < lfs.nInodes, (lfs.inodes i).created = true := by
  constructor
  · intro hfull i hi
    obtain ⟨name, hu⟩ := hfull i hi
    exact ((h.slot_used hi).mp hu).1
  · intro hall i hi
    exact ⟨_, (h.slot_used hi).mpr ⟨hall i hi, rfl⟩⟩

theorem kept_format {env : Env} {w w' : World} (h : lfsFormat env fuel lfs w = some (OK, start, w'))
    (hn : 1 ≤ start.nInodes) : Kept ∅ start := by
  obtain ⟨w₁, w₂, -, -, hwrite⟩ := formatLaidOut_ok (lfsFormat_ok h)
  generalize formatLayout { lfs with mounted := false } = layout at hwrite
  have hstart : start.nInodes = layout.nInodes ∧ start.inodes = layout.mount.inodes := by
    rcases lfsWriteCheckpoint_ok hwrite with ⟨hr, -, -⟩ | ⟨c, -, -, ⟨-, rfl⟩ | ⟨hr, -⟩⟩
    · cases hr
    · exact ⟨tick_nInodes.trans (@mount_nInodes layout), tick_inodes⟩
    · cases hr
  obtain ⟨hcount, hinodes⟩ := hstart
  have hfree : ∀ i < start.nInodes, start.slots i = .free := by
    intro i hi
    unfold Lfs.slots
    rw [hinodes, mount_inodes (hcount ▸ hi)]
    rfl
  refine ⟨⟨hn, Probed.fresh hfree, fun name => ⟨?_, fun hm => absurd hm (Set.notMem_empty _)⟩⟩, ?_⟩
  · rintro ⟨i, hi, hu⟩
    rw [hfree i hi] at hu
    cases hu
  · intro i hi
    rw [hinodes, mount_inodes (hcount ▸ hi)]
    exact ⟨rfl, fun _ => rfl⟩

/-- In every run of creations and removals on a new file system a file is found when the last call
on its name that succeeded made it, names are not shared, a creation fails when the name is taken or
every inode is, a call does not touch what is found for other names, and all calls return. -/
theorem directory_probing {env : Env} {w w' : World} {k : ℕ}
    (hformat : lfsFormat env k lfs w = some (OK, start, w')) (hn : 1 ≤ start.nInodes)
    (run : DirRun fuel start calls lfs') :
    (∀ name, ∃ o, lfsFindInode lfs' name false = some o ∧ (o.isSome ↔ lastMade calls name) ∧
      ∀ i, o = some i → (lfs'.inodes i).created = true ∧ (lfs'.inodes i).name = name) ∧
    (∀ i j, i < lfs'.nInodes → j < lfs'.nInodes → (lfs'.inodes i).created = true →
      (lfs'.inodes j).created = true → (lfs'.inodes i).name = (lfs'.inodes j).name → i = j) ∧
    (∀ name r lfs'', lfsCreate fuel name lfs' = some (r, lfs'') → (r ≠ OK ↔
      (∃ i < lfs'.nInodes, (lfs'.inodes i).created = true ∧ (lfs'.inodes i).name = name) ∨
        ∀ i < lfs'.nInodes, (lfs'.inodes i).created = true)) ∧
    (∀ (c : DirCall) r lfs'', c.run fuel lfs' = some (r, lfs'') → ∀ name, name ≠ c.name →
      lfsFindInode lfs'' name false = lfsFindInode lfs' name false) ∧
    (start.Queued → start.nInodes < fuel → ∀ c : DirCall, (c.run fuel lfs').isSome) := by
  obtain ⟨hk, hcount, hq⟩ := run.kept (kept_format hformat hn)
  have hpos := hk.directory.inodes_pos
  have hprobed := hk.directory.probed
  refine ⟨fun name => ?_, fun i j hi hj hci hcj he => ?_, fun name r lfs'' hcreate => ?_,
    fun c r lfs'' hcall => (hk.call hcall).2.2.2.2, fun hqueue hfuel c => ?_⟩
  · refine ⟨_, hk.directory.find_eq, ?_, fun i hi => ?_⟩
    · have hfound : (∃ i, lfsFindInode lfs' name false = some (some i)) ↔ _ := hk.directory.find_isSome
      rw [hk.directory.find_eq] at hfound
      rw [Option.isSome_iff_exists, ← Set.mem_ofPred_eq (p := lastMade calls), ← hfound]
      simp only [Option.some.injEq]
    · obtain ⟨hlt, hu⟩ := (hprobed.lookup_eq_some (lfsHash_lt hpos)).mp hi
      exact (hk.slot_used hlt).mp hu
  · exact hprobed.unique _ i j hi hj ((hk.slot_used hi).mpr ⟨hci, rfl⟩) ((hk.slot_used hj).mpr ⟨hcj, he.symm⟩)
  · have hfails := (hk.call (c := .create name) hcreate).2.2.1
    rw [hfails, ← hk.full_iff]
    apply or_congr_left
    rw [← hk.directory.names_eq name]
    exact exists_congr fun i => and_congr_right fun hi => hk.slot_used hi
  · exact hk.total c (hq hfuel hqueue) (hcount ▸ hfuel)

def calmEnv : Env := { ok := fun _ => true, junk := fun _ => zeros }

def blankWorld : World := { disk := zeros, blockSize := 512, calls := 0 }

def blankLfs : Lfs :=
  { partOff := 0, partLen := 4096, secSize := 512, secPerBlk := 8, checkpointBlk := fun _ => 0
    checkpointBlks := 0, segStart := 0, checkpointTimestamp := 0, segsumTimestamp := 0, mounted := false
    nSegs := 0, segments := fun _ => { index := 0, next := none }, segHead := none, segTail := none
    segFree := none, nInodes := 0, pending := none
    inodes := fun _ =>
      { index := 0, created := false, free := false, name := fun _ => 0, blkCnt := 0, lenReal := 0
        blks := .nil, wnext := none } }

def runCalls (fuel : ℕ) : List DirCall → Lfs → Option (List (DirCall × ℤ) × Lfs)
  | [], lfs => some ([], lfs)
  | c :: next, lfs => (runCalls fuel next lfs).bind fun x => (c.run fuel x.2).map fun y => ((c, y.1) :: x.1, y.2)

theorem runCalls_run {cs : List DirCall} (h : runCalls fuel cs start = some (calls, lfs)) :
    DirRun fuel start calls lfs := by
  induction cs generalizing calls lfs with
  | nil =>
    cases h
    exact .start
  | cons c next ih =>
    obtain ⟨⟨calls', lfs'⟩, hrun, h⟩ := Option.bind_eq_some_iff.mp h
    obtain ⟨⟨r, lfs''⟩, hcall, he⟩ := Option.map_eq_some_iff.mp h
    cases he
    exact (ih hrun).call hcall

def letter (i : Fin 16) : Name := fun j => if j = i then 1 else 0

theorem directory_probing_collision : ∃ start w lfs,
    lfsFormat calmEnv 3 blankLfs blankWorld = some (OK, start, w) ∧
    DirRun 200 start [(.rm (letter 0), OK), (.create (letter 1), OK), (.create (letter 0), OK)] lfs ∧
    lfsHash start (letter 0) = lfsHash start (letter 1) ∧
    lfsFindInode lfs (letter 0) false = some none ∧ ∃ i, lfsFindInode lfs (letter 1) false = some (some i) := by
  have heval : ((lfsFormat calmEnv 3 blankLfs blankWorld).bind fun x =>
      (runCalls 200 [.rm (letter 0), .create (letter 1), .create (letter 0)] x.2.1).map fun y =>
        (x.1, y.1, x.2.1.nInodes)) =
      some (OK, [(.rm (letter 0), OK), (.create (letter 1), OK), (.create (letter 0), OK)], 127) := by
    decide +kernel
  obtain ⟨⟨r, start, w⟩, hformat, h⟩ := Option.bind_eq_some_iff.mp heval
  obtain ⟨⟨calls, lfs⟩, hcalls, he⟩ := Option.map_eq_some_iff.mp h
  obtain ⟨rfl, rfl, hn⟩ : r = OK ∧ calls = [(.rm (letter 0), OK), (.create (letter 1), OK), (.create (letter 0), OK)] ∧
      start.nInodes = 127 := by simpa using he
  have hrun := runCalls_run hcalls
  have hpos : 1 ≤ start.nInodes := hn ▸ (by decide : 1 ≤ 127)
  have hfinds := (directory_probing hformat hpos hrun).1
  refine ⟨start, w, lfs, hformat, hrun, by unfold lfsHash; rw [hn]; decide, ?_, ?_⟩
  · obtain ⟨o, hfind, hiff, -⟩ := hfinds (letter 0)
    cases o with
    | none => exact hfind
    | some i => exact absurd (hiff.mp rfl) (by unfold lastMade; decide)
  · obtain ⟨o, hfind, hiff, -⟩ := hfinds (letter 1)
    obtain ⟨i, rfl⟩ := Option.isSome_iff_exists.mp (hiff.mpr (by unfold lastMade; decide))
    exact ⟨i, hfind⟩

end Agatha.Fs
