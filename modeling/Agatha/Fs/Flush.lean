import Agatha.Fs.CheckpointLists
import Agatha.Fs.Directory
import Agatha.Fs.Files
import Agatha.Fs.Format

namespace Agatha.Fs

open Library Library.Bytes Library.LinkedList

/-- The loop of `lfs_fill_inode`, at block `n`, over the list from there on; the inode goes to `o`. -/
def fillDirect (o : ℕ) : ℕ → Blks → Bytes → Option (Bool × Bytes)
  | _, .nil, buf => some (true, buf)
  | _, .wild, _ => none
  | n, .cons b bnext, buf =>
    if n < nDirectBlks then
      fillDirect o (n + 1) bnext ((buf.put32 (o + 40 + 8 * n) (if b.empty then 0 else b.blk)).put32 (o + 44 + 8 * n)
        (if b.empty then 0 else b.crc))
    -- indirect blocks are not supported
    else some (false, buf)

def lfsFillInode (x : Inode) (o : ℕ) (buf : Bytes) : Option (Bool × Bytes) :=
  let buf := ((buf.put32 o lfsInodeMagic).put32 (o + 4) 0).put32 (o + 8) x.index
  let buf := buf.copy (o + 12) (fun i => x.name (Fin.ofNat 16 i)) 0 lfsNameLen
  let buf := (buf.put32 (o + 28) x.blkCnt).put64 (o + 32) x.lenReal
  (fillDirect o 0 x.blks buf).map fun (ok, buf) =>
    (ok, if ok then buf.put32 (o + 4) (crcChecksum buf o lfsBlkSize) else buf)

def Blk.stored (b : Blk) (seg k : ℕ) : Blk :=
  { b with crc := crcChecksum b.addr 0 lfsBlkSize, blk := (seg * lfsSegBlks + (1 + k)) % 2 ^ 32, written := true }

/-- The inner loop of `lfs_fill_seg`: whether the segment was full, the list, how many blocks are in the segment, and
its bytes. -/
def fillBlks (seg maxBlks inode : ℕ) : Blks → ℕ → Bytes → Option (Bool × Blks × ℕ × Bytes)
  | .nil, cnt, s => some (false, .nil, cnt, s)
  | .wild, _, _ => none
  | .cons b bnext, cnt, s =>
    if cnt = maxBlks then some (true, .cons b bnext, cnt, s)
    else if b.written = false ∧ b.empty = false then
      -- there is no `addr`
      if b.cached = false then none
      else
        let s := (s.copy ((1 + cnt) * lfsBlkSize) b.addr 0 lfsBlkSize).put32 (16 + 4 * cnt) inode
        (fillBlks seg maxBlks inode bnext (cnt + 1) s).map fun (full, bs, cnt', s) =>
          (full, .cons (b.stored seg cnt) bs, cnt', s)
    else
      (fillBlks seg maxBlks inode bnext cnt s).map fun (full, bs, cnt', s) => (full, .cons b bs, cnt', s)

/-- The outer loop of `lfs_fill_seg`. -/
def fillInodes (seg maxBlks : ℕ) : ℕ → Lfs → ℕ → Bytes → Option (ℤ × Lfs × ℕ × Bytes)
  | 0, _, _, _ => none
  | fuel + 1, lfs, cnt, s =>
    match lfs.pending with
    | none => some (OK, lfs, cnt, s)
    | some i =>
      if cnt = maxBlks then some (OK, lfs, cnt, s)
      else if lfs.nInodes ≤ i then none
      else
        let x := lfs.inodes i
        match fillBlks seg maxBlks x.index x.blks cnt s with
        | none => none
        | some (full, blks, cnt, s) =>
          let lfs := lfs.setInode i { x with blks := blks }
          if full = true ∨ cnt = maxBlks then some (OK, lfs, cnt, s)
          else
            match lfsFillInode { x with blks := blks } ((cnt + 1) * lfsBlkSize) s with
            | none => none
            | some (false, s) => some (ERR, lfs, cnt, s)
            | some (true, s) =>
              fillInodes seg maxBlks fuel { lfs with pending := x.wnext } (cnt + 1) (s.put32 (16 + 4 * cnt) lfsBlkInode)

def lfsFillSeg (fuel : ℕ) (lfs : Lfs) (seg maxBlks : ℕ) (s : Bytes) : Option (ℤ × Lfs × ℕ × Bytes) :=
  let s := ((s.put32 0 lfsSegsumMagic).put32 4 0).put32 8 lfs.segsumTimestamp
  let lfs := { lfs with segsumTimestamp := (lfs.segsumTimestamp + 1) % 2 ^ 32 }
  (fillInodes seg maxBlks fuel lfs 0 s).map fun (r, lfs, cnt, s) =>
    let s := s.put32 12 cnt
    (r, lfs, cnt, if r = OK then s.put32 4 (crcChecksum s 0 lfsBlkSize) else s)

def appendSeg (lfs : Lfs) (s : ℕ) : Lfs :=
  let lfs := match lfs.segTail with
    | none => { lfs with segHead := some s, segTail := some s }
    | some t => { lfs.setSegment t { lfs.segments t with next := some s } with segTail := some s }
  lfs.setSegment s { lfs.segments s with next := none }

/-- A round of `lfs_flush` from where it has segment `s`, which is to have number `idx`. -/
def flushSeg (env : Env) (fuel : ℕ) (lfs : Lfs) (s idx : ℕ) (w : World) : Option (ℤ × Lfs × World) :=
  -- memory is requested, for which it returns what that returned, and mapped
  if env.ok w.calls = false then some (ERR, lfs, w.next)
  else if env.ok w.next.calls = false then some (ERR, lfs, w.next.next)
  else
    match lfsFillSeg fuel lfs idx (lfsSegBlks - 1) (env.junk w.calls) with
    | none => none
    | some (r, lfs, cnt, frame) =>
      if r ≠ OK then some (ERR, lfs, w.next.next)
      else
        match blockWrite env (lfs.sector (lfs.segStart + idx * lfsSegBlks)) ((1 + cnt) * lfs.secPerBlk) frame
            w.next.next with
        | (false, w) => some (ERR, lfs, w)
        | (true, w) => some (OK, appendSeg lfs s, w)

def nextIndex (lfs : Lfs) : ℕ :=
  match lfs.segTail with
  | none => 0
  | some t => ((lfs.segments t).index + 1) % 2 ^ 32

/-- The loop of `lfs_flush`. -/
def flushLoop (env : Env) : ℕ → Lfs → World → Option (ℤ × Lfs × World)
  | 0, _, _ => none
  | fuel + 1, lfs, w =>
    match lfs.pending with
    | none => some (OK, lfs, w)
    | some _ =>
      match lfs.segFree with
      -- `lfs_get_free_seg` reads `next` of it
      | none => none
      | some s =>
        if lfs.nSegs ≤ s then none
        else
          let idx := nextIndex lfs
          let lfs := { lfs with segFree := (lfs.segments s).next }.setSegment s { lfs.segments s with index := idx }
          match flushSeg env fuel lfs s idx w with
          | none => none
          | some (r, lfs, w) => if r ≠ OK then some (r, lfs, w) else flushLoop env fuel lfs w

def lfsFlush (env : Env) (fuel : ℕ) (lfs : Lfs) (w : World) : Option (ℤ × Lfs × World) :=
  match flushLoop env fuel lfs w with
  | none => none
  | some (r, lfs, w) => if r ≠ OK then some (r, lfs, w) else lfsWriteCheckpoint env fuel lfs w

def Blks.todo : Blks → ℕ
  | .cons b bnext => (if b.written = false ∧ b.empty = false then 1 else 0) + bnext.todo
  | _ => 0

def Blks.Ready : Blks → Prop
  | .nil => True
  | .wild => False
  | .cons b bnext => (b.written = false → b.empty = false → b.cached = true) ∧ bnext.Ready

def Blks.Moved (P : ℕ → Prop) : Blks → Blks → Prop
  | .nil, .nil => True
  | .wild, .wild => True
  | .cons b bnext, .cons b' bnext' =>
    (b' = b ∨ b.written = false ∧ b.empty = false ∧ ∃ seg k, P seg ∧ k < lfsSegBlks - 1 ∧ b' = b.stored seg k) ∧
      bnext.Moved P bnext'
  | _, _ => False

structure Inode.Storable (x : Inode) : Prop where
  ready : x.blks.Ready
  direct : x.blks.offs.length ≤ nDirectBlks

def itemsOf (lfs : Lfs) (l : List ℕ) : ℕ := (l.map fun i => (lfs.inodes i).blks.todo + 1).sum

variable {lfs lfs' : Lfs} {bs bs' bs'' : Blks} {P Q : ℕ → Prop} {seg maxBlks inode cnt cnt' n o fuel : ℕ}
  {s s' : Bytes} {full : Bool} {x : Inode} {r : ℤ} {l : List ℕ}

section Blocks

theorem Blks.Moved.refl : bs.Moved P bs := by
  induction bs with
  | nil => trivial
  | wild => trivial
  | cons b bnext ih => exact ⟨.inl rfl, ih⟩

theorem Blks.Moved.mono (h : bs.Moved P bs') (hpq : ∀ i, P i → Q i) : bs.Moved Q bs' := by
  fun_induction Blks.Moved P bs bs' with
  | case1 => trivial
  | case2 => trivial
  | case3 b bnext b' bnext' ih =>
    refine ⟨h.1.imp_right ?_, ih h.2⟩
    rintro ⟨hw, he, seg, k, hp, hk, hb⟩
    exact ⟨hw, he, seg, k, hpq seg hp, hk, hb⟩
  | case4 => exact h.elim

theorem Blks.Moved.trans (h : bs.Moved P bs') (h' : bs'.Moved P bs'') : bs.Moved P bs'' := by
  induction bs generalizing bs' bs'' with
  | nil | wild =>
    cases bs' with
    | nil | wild => first | exact h' | exact h.elim
    | cons b' bnext' => exact h.elim
  | cons b bnext ih =>
    cases bs' with
    | nil | wild => exact h.elim
    | cons b' bnext' =>
      cases bs'' with
      | nil | wild => exact h'.elim
      | cons b'' bnext'' =>
        refine ⟨?_, ih h.2 h'.2⟩
        rcases h.1 with rfl | ⟨hw, he, seg, k, hp, hk, rfl⟩
        · exact h'.1
        · rcases h'.1 with rfl | ⟨hw', -⟩
          · exact .inr ⟨hw, he, seg, k, hp, hk, rfl⟩
          · cases hw'

theorem Blk.stored_written {b : Blk} {k : ℕ} : ¬ ((b.stored seg k).written = false ∧ (b.stored seg k).empty = false) :=
  fun h => by cases h.1

theorem Blks.Moved.todo_le (h : bs.Moved P bs') : bs'.todo ≤ bs.todo := by
  fun_induction Blks.Moved P bs bs' with
  | case1 => exact le_rfl
  | case2 => exact le_rfl
  | case3 b bnext b' bnext' ih =>
    have hrec := ih h.2
    rw [Blks.todo, Blks.todo]
    rcases h.1 with rfl | ⟨hw, he, seg, k, -, -, rfl⟩
    · omega
    · rw [if_neg Blk.stored_written, if_pos ⟨hw, he⟩]
      omega
  | case4 => exact h.elim

theorem Blks.Moved.offs (h : bs.Moved P bs') : bs'.offs = bs.offs := by
  fun_induction Blks.Moved P bs bs' with
  | case1 => rfl
  | case2 => rfl
  | case3 b bnext b' bnext' ih =>
    have hoff : b'.off = b.off := by
      rcases h.1 with rfl | ⟨-, -, seg, k, -, -, rfl⟩ <;> rfl
    rw [Blks.offs, Blks.offs, hoff, ih h.2]
  | case4 => exact h.elim

structure Filled (seg maxBlks : ℕ) (bs : Blks) (cnt : ℕ) (full : Bool) (bs' : Blks) (cnt' : ℕ) : Prop where
  moved : bs.Moved (· = seg) bs'
  count : cnt' + bs'.todo = cnt + bs.todo
  le : cnt' ≤ maxBlks
  stop : full = true → cnt' = maxBlks
  through : full = false → bs'.todo = 0 ∧ bs.Ready
  back : bs'.Ready → bs.Ready

theorem fillBlks_filled (hmax : maxBlks ≤ lfsSegBlks - 1) (hcnt : cnt ≤ maxBlks)
    (h : fillBlks seg maxBlks inode bs cnt s = some (full, bs', cnt', s')) :
    Filled seg maxBlks bs cnt full bs' cnt' := by
  induction bs generalizing cnt s bs' with
  | nil =>
    cases h
    exact ⟨trivial, rfl, hcnt, nofun, fun _ => ⟨rfl, trivial⟩, id⟩
  | wild => cases h
  | cons b bnext ih =>
    unfold fillBlks at h
    split_ifs at h with hfull hwrite hcached
    · cases h
      exact ⟨.refl, rfl, hcnt, fun _ => hfull, nofun, id⟩
    · obtain ⟨⟨full₁, bs₁, cnt₁, s₁⟩, hrec, he⟩ := Option.map_eq_some_iff.mp h
      cases he
      have hf := ih (by omega) hrec
      have hc : b.cached = true := Bool.eq_true_of_not_eq_false hcached
      refine ⟨⟨.inr ⟨hwrite.1, hwrite.2, seg, cnt, rfl, by omega, rfl⟩, hf.moved⟩, ?_, hf.le, hf.stop, ?_, ?_⟩
      · have hcount := hf.count
        rw [Blks.todo, Blks.todo, if_pos hwrite, if_neg Blk.stored_written]
        omega
      · intro hthrough
        obtain ⟨htodo, hready⟩ := hf.through hthrough
        refine ⟨?_, fun _ _ => hc, hready⟩
        rw [Blks.todo, if_neg Blk.stored_written, htodo]
      · exact fun hready => ⟨fun _ _ => hc, hf.back hready.2⟩
    · obtain ⟨⟨full₁, bs₁, cnt₁, s₁⟩, hrec, he⟩ := Option.map_eq_some_iff.mp h
      cases he
      have hf := ih hcnt hrec
      have hready : b.written = false → b.empty = false → b.cached = true := fun hw he => absurd ⟨hw, he⟩ hwrite
      refine ⟨⟨.inl rfl, hf.moved⟩, ?_, hf.le, hf.stop, ?_, ?_⟩
      · have hcount := hf.count
        rw [Blks.todo, Blks.todo]
        omega
      · intro hthrough
        obtain ⟨htodo, hr⟩ := hf.through hthrough
        refine ⟨?_, hready, hr⟩
        rw [Blks.todo, if_neg hwrite, htodo]
      · exact fun hr => ⟨hready, hf.back hr.2⟩

theorem fillBlks_some (hr : bs.Ready) (cnt : ℕ) (s : Bytes) :
    ∃ res, fillBlks seg maxBlks inode bs cnt s = some res := by
  induction bs generalizing cnt s with
  | nil => exact ⟨_, rfl⟩
  | wild => exact hr.elim
  | cons b bnext ih =>
    unfold fillBlks
    split_ifs with hfull hwrite hcached
    · exact ⟨_, rfl⟩
    · rw [hr.1 hwrite.1 hwrite.2] at hcached
      cases hcached
    · obtain ⟨res, hres⟩ := ih hr.2 (cnt + 1)
        ((s.copy ((1 + cnt) * lfsBlkSize) b.addr 0 lfsBlkSize).put32 (16 + 4 * cnt) inode)
      dsimp only
      rw [hres]
      exact ⟨_, rfl⟩
    · obtain ⟨res, hres⟩ := ih hr.2 cnt s
      rw [hres]
      exact ⟨_, rfl⟩

theorem Blks.Moved.ready (h : bs.Moved P bs') (hr : bs.Ready) : bs'.Ready := by
  fun_induction Blks.Moved P bs bs' with
  | case1 => trivial
  | case2 => exact hr.elim
  | case3 b bnext b' bnext' ih =>
    refine ⟨?_, ih h.2 hr.2⟩
    rcases h.1 with rfl | ⟨-, -, seg, k, -, -, rfl⟩
    · exact hr.1
    · exact fun hw => by cases hw
  | case4 => exact h.elim

theorem fillDirect_some (hr : bs.Ready) (hn : n + bs.offs.length ≤ nDirectBlks) (s : Bytes) :
    ∃ s', fillDirect o n bs s = some (true, s') := by
  induction bs generalizing n s with
  | nil => exact ⟨s, rfl⟩
  | wild => exact hr.elim
  | cons b bnext ih =>
    rw [Blks.offs, List.length_cons] at hn
    unfold fillDirect
    rw [if_pos (by omega)]
    exact ih hr.2 (by omega) _

theorem fillDirect_direct (h : fillDirect o n bs s = some (true, s')) (hn : n ≤ nDirectBlks) :
    n + bs.offs.length ≤ nDirectBlks := by
  induction bs generalizing n s with
  | nil => exact hn
  | wild => cases h
  | cons b bnext ih =>
    unfold fillDirect at h
    by_cases hlt : n < nDirectBlks
    · rw [if_pos hlt] at h
      have hrec := ih h hlt
      rw [Blks.offs, List.length_cons]
      omega
    · rw [if_neg hlt] at h
      cases h

theorem lfsFillInode_some (hx : x.Storable) (o : ℕ) (s : Bytes) : ∃ s', lfsFillInode x o s = some (true, s') := by
  unfold lfsFillInode
  dsimp only
  obtain ⟨s', hs⟩ := @fillDirect_some x.blks 0 o hx.ready ((Nat.zero_add _).le.trans hx.direct) _
  rw [hs]
  exact ⟨_, rfl⟩

theorem lfsFillInode_direct (h : lfsFillInode x o s = some (true, s')) : x.blks.offs.length ≤ nDirectBlks := by
  unfold lfsFillInode at h
  obtain ⟨⟨ok, s₁⟩, hrec, he⟩ := Option.map_eq_some_iff.mp h
  obtain ⟨rfl, -⟩ := Prod.mk.inj he
  have hdirect := fillDirect_direct hrec (Nat.zero_le _)
  omega

end Blocks

section Inodes

theorem fillInodes_same (h : fillInodes seg maxBlks fuel lfs cnt s = some (r, lfs', cnt', s')) :
    lfs' = { lfs with pending := lfs'.pending, inodes := lfs'.inodes } ∧ (r = OK ∨ r = ERR) := by
  induction fuel generalizing lfs cnt s with
  | zero => cases h
  | succ fuel ih =>
    unfold fillInodes at h
    split at h
    · cases h
      exact ⟨rfl, .inl rfl⟩
    · split_ifs at h
      · cases h
        exact ⟨rfl, .inl rfl⟩
      · dsimp only at h
        split at h
        · cases h
        · split_ifs at h
          · cases h
            exact ⟨rfl, .inl rfl⟩
          · split at h
            · cases h
            · cases h
              exact ⟨rfl, .inr rfl⟩
            · obtain ⟨hrec, hr⟩ := ih h
              exact ⟨hrec, hr⟩

structure InodesFilled (seg maxBlks : ℕ) (lfs : Lfs) (l : List ℕ) (cnt : ℕ) (lfs' : Lfs) (rest : List ℕ) (cnt' : ℕ) :
    Prop where
  list : Chain lfs'.wnext lfs'.pending rest
  split : ∃ done, l = done ++ rest ∧ ∀ i ∈ done, (lfs'.inodes i).blks.todo = 0
  inodes : ∀ i, ∃ blks, lfs'.inodes i = { lfs.inodes i with blks := blks } ∧ (lfs.inodes i).blks.Moved (· = seg) blks
  items : cnt' + itemsOf lfs' rest = cnt + itemsOf lfs l
  le : cnt' ≤ maxBlks
  stop : rest ≠ [] → cnt' = maxBlks
  back : (∀ i ∈ rest, (lfs'.inodes i).Storable) → ∀ i ∈ l, (lfs.inodes i).Storable

theorem itemsOf_congr (h : ∀ i ∈ l, (lfs'.inodes i).blks.todo = (lfs.inodes i).blks.todo) : itemsOf lfs' l = itemsOf lfs l := by
  unfold itemsOf
  rw [List.map_congr_left fun i hi => by rw [h i hi]]

theorem itemsOf_cons {i : ℕ} : itemsOf lfs (i :: l) = (lfs.inodes i).blks.todo + 1 + itemsOf lfs l := by
  unfold itemsOf
  rw [List.map_cons, List.sum_cons]

section Setting

variable {i : ℕ} {blks : Blks}

theorem setBlks_self : (lfs.setInode i { lfs.inodes i with blks := blks }).inodes i = { lfs.inodes i with blks := blks } :=
  Function.update_self ..

theorem setBlks_of_ne {j : ℕ} (h : j ≠ i) : (lfs.setInode i { lfs.inodes i with blks := blks }).inodes j = lfs.inodes j :=
  Function.update_of_ne h ..

theorem setBlks_wnext : (lfs.setInode i { lfs.inodes i with blks := blks }).wnext = lfs.wnext := by
  funext j
  unfold Lfs.wnext
  by_cases hj : j = i
  · rw [hj, setBlks_self]
  · rw [setBlks_of_ne hj]

theorem setBlks_moved (hm : (lfs.inodes i).blks.Moved P blks) (j : ℕ) : ∃ bs,
    (lfs.setInode i { lfs.inodes i with blks := blks }).inodes j = { lfs.inodes j with blks := bs } ∧
      (lfs.inodes j).blks.Moved P bs := by
  by_cases hj : j = i
  · subst hj
    exact ⟨blks, setBlks_self, hm⟩
  · exact ⟨_, setBlks_of_ne hj, .refl⟩

theorem setBlks_items (hi : i ∉ l) : itemsOf (lfs.setInode i { lfs.inodes i with blks := blks }) l = itemsOf lfs l :=
  by
  apply itemsOf_congr
  intro j hj
  rw [setBlks_of_ne]
  rintro rfl
  exact hi hj

end Setting

theorem InodesFilled.halt (hl : Chain lfs.wnext lfs.pending l) (hcnt : cnt ≤ maxBlks) (hstop : l ≠ [] → cnt = maxBlks) :
    InodesFilled seg maxBlks lfs l cnt lfs l cnt :=
  ⟨hl, ⟨[], rfl, fun _ hi => absurd hi List.not_mem_nil⟩, fun _ => ⟨_, rfl, .refl⟩, rfl, hcnt, hstop, id⟩

section First

variable {i : ℕ} {blks : Blks} {rest : List ℕ} {cnt₁ : ℕ}

theorem Filled.halt (hf : Filled seg maxBlks (lfs.inodes i).blks cnt full blks cnt₁)
    (hl : Chain lfs.wnext lfs.pending (i :: l)) (hstop : cnt₁ = maxBlks) :
    InodesFilled seg maxBlks lfs (i :: l) cnt (lfs.setInode i { lfs.inodes i with blks := blks }) (i :: l) cnt₁ := by
  have hnot : i ∉ l := (List.nodup_cons.mp hl.nodup).1
  have hcount := hf.count
  refine ⟨?_, ⟨[], rfl, fun _ hi => absurd hi List.not_mem_nil⟩, setBlks_moved hf.moved, ?_, hf.le, fun _ => hstop, ?_⟩
  · rw [setBlks_wnext]
    exact hl
  · rw [itemsOf_cons, itemsOf_cons, setBlks_items hnot, setBlks_self]
    dsimp only
    omega
  · intro hrest j hj
    have hs := hrest j hj
    by_cases hji : j = i
    · subst hji
      rw [setBlks_self] at hs
      exact ⟨hf.back hs.ready, by rw [← hf.moved.offs]; exact hs.direct⟩
    · rw [setBlks_of_ne hji] at hs
      exact hs

theorem Filled.followed (hf : Filled seg maxBlks (lfs.inodes i).blks cnt full blks cnt₁) (hthrough : full = false)
    (hl : Chain lfs.wnext lfs.pending (i :: l)) (hdirect : blks.offs.length ≤ nDirectBlks)
    (hrec : InodesFilled seg maxBlks
      { lfs.setInode i { lfs.inodes i with blks := blks } with pending := (lfs.inodes i).wnext } l (cnt₁ + 1) lfs' rest
      cnt') :
    InodesFilled seg maxBlks lfs (i :: l) cnt lfs' rest cnt' := by
  have hnot : i ∉ l := (List.nodup_cons.mp hl.nodup).1
  have hcount := hf.count
  obtain ⟨htodo, hready⟩ := hf.through hthrough
  have hitems : cnt' + itemsOf lfs' rest = cnt₁ + 1 + itemsOf lfs l := hrec.items.trans (congrArg _ (setBlks_items hnot))
  obtain ⟨done, rfl, hdone⟩ := hrec.split
  refine ⟨hrec.list, ⟨i :: done, rfl, ?_⟩, ?_, ?_, hrec.le, hrec.stop, ?_⟩
  · intro j hj
    rcases List.mem_cons.mp hj with rfl | hj
    · obtain ⟨bs, hbs, hmoved⟩ := hrec.inodes j
      have hle := hmoved.todo_le
      dsimp only at hle
      rw [setBlks_self] at hle
      rw [hbs]
      dsimp only at hle ⊢
      omega
    · exact hdone j hj
  · intro j
    obtain ⟨bs, hbs, hmoved⟩ := hrec.inodes j
    obtain ⟨bs₁, hbs₁, hmoved₁⟩ := @setBlks_moved lfs (· = seg) i blks hf.moved j
    dsimp only at hbs hmoved
    rw [hbs₁] at hbs hmoved
    exact ⟨bs, hbs, hmoved₁.trans hmoved⟩
  · rw [itemsOf_cons]
    omega
  · intro hrest j hj
    rcases List.mem_cons.mp hj with rfl | hmem
    · exact ⟨hready, by rw [← hf.moved.offs]; exact hdirect⟩
    · have hs := hrec.back hrest j hmem
      have hji : j ≠ i := by
        rintro rfl
        exact hnot hmem
      dsimp only at hs
      rw [setBlks_of_ne hji] at hs
      exact hs

end First

theorem fillInodes_filled (hmax : maxBlks ≤ lfsSegBlks - 1) (hcnt : cnt ≤ maxBlks) (hl : Chain lfs.wnext lfs.pending l)
    (h : fillInodes seg maxBlks fuel lfs cnt s = some (OK, lfs', cnt', s')) :
    ∃ rest, InodesFilled seg maxBlks lfs l cnt lfs' rest cnt' := by
  induction fuel generalizing lfs l cnt s with
  | zero => cases h
  | succ fuel ih =>
    unfold fillInodes at h
    cases l with
    | nil =>
      rw [chain_nil.mp hl] at h
      cases h
      exact ⟨[], .halt hl hcnt fun hne => absurd rfl hne⟩
    | cons i l =>
      rw [hl.1] at h
      dsimp only at h
      split_ifs at h with hfull hin
      · cases h
        exact ⟨i :: l, .halt hl hcnt fun _ => hfull⟩
      · split at h
        · cases h
        · rename_i full blks cnt₁ s₁ hblks
          have hf := fillBlks_filled hmax hcnt hblks
          split_ifs at h with hstop
          · cases h
            exact ⟨i :: l, hf.halt hl (hstop.elim hf.stop id)⟩
          · obtain ⟨hnf, hne⟩ := not_or.mp hstop
            have hle := hf.le
            split at h
            · cases h
            · cases h
            · rename_i s₂ hinode
              have hchain : Chain (lfs.setInode i { lfs.inodes i with blks := blks }).wnext (lfs.inodes i).wnext l := by
                rw [setBlks_wnext]
                exact hl.2
              obtain ⟨rest, hrec⟩ := ih (by omega) hchain h
              exact ⟨rest, hf.followed (Bool.eq_false_of_not_eq_true hnf) hl (lfsFillInode_direct hinode) hrec⟩

theorem fillInodes_some (hmax : maxBlks ≤ lfsSegBlks - 1) (hcnt : cnt ≤ maxBlks) (hl : Chain lfs.wnext lfs.pending l)
    (hin : ∀ i ∈ l, i < lfs.nInodes) (hst : ∀ i ∈ l, (lfs.inodes i).Storable) (hfuel : l.length < fuel) (s : Bytes) :
    ∃ lfs' cnt' s', fillInodes seg maxBlks fuel lfs cnt s = some (OK, lfs', cnt', s') := by
  induction fuel generalizing lfs l cnt s with
  | zero => omega
  | succ fuel ih =>
    unfold fillInodes
    cases l with
    | nil =>
      rw [chain_nil.mp hl]
      exact ⟨_, _, _, rfl⟩
    | cons i l₁ =>
      rw [hl.1]
      have hi := hin i List.mem_cons_self
      have hnot : i ∉ l₁ := (List.nodup_cons.mp hl.nodup).1
      have hx := hst i List.mem_cons_self
      dsimp only
      split_ifs with hfull hwild
      · exact ⟨_, _, _, rfl⟩
      · omega
      · obtain ⟨⟨full, blks, cnt₁, s₁⟩, hblks⟩ := @fillBlks_some _ seg maxBlks (lfs.inodes i).index hx.ready cnt s
        have hf := fillBlks_filled hmax hcnt hblks
        rw [hblks]
        dsimp only
        split_ifs with hstop
        · exact ⟨_, _, _, rfl⟩
        · have hx' : Inode.Storable { lfs.inodes i with blks := blks } :=
            ⟨hf.moved.ready hx.ready, hf.moved.offs ▸ hx.direct⟩
          obtain ⟨s₂, hinode⟩ := lfsFillInode_some hx' ((cnt₁ + 1) * lfsBlkSize) s₁
          have hle := hf.le
          have hchain : Chain (lfs.setInode i { lfs.inodes i with blks := blks }).wnext (lfs.inodes i).wnext l₁ := by
            rw [setBlks_wnext]
            exact hl.2
          rw [hinode]
          apply @ih { lfs.setInode i { lfs.inodes i with blks := blks } with pending := (lfs.inodes i).wnext }
            (cnt₁ + 1) l₁ (by omega) hchain
          · exact fun j hj => hin j (List.mem_cons_of_mem _ hj)
          · intro j hj
            have hji : j ≠ i := by
              rintro rfl
              exact hnot hj
            dsimp only
            rw [setBlks_of_ne hji]
            exact hst j (List.mem_cons_of_mem _ hj)
          · exact Nat.lt_of_succ_lt_succ hfuel

end Inodes

end Agatha.Fs
