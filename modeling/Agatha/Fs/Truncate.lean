import Agatha.Fs.FileContents

namespace Agatha.Fs

open Library Library.Bytes Library.LinkedList

/-- The loop of `lfs_trunc`: the list that is left, and how many blocks it has. -/
def truncBlks (len : ℕ) : Blks → Option (Blks × ℕ)
  | .nil => some (.nil, 0)
  | .wild => none
  | .cons b bnext =>
    -- this block is freed, and all behind it
    if len ≤ b.off then if bnext.ends then some (.nil, 0) else none
    else (truncBlks len bnext).map fun (bs, n) => (.cons b bs, n + 1)

def lfsTrunc (fuel : ℕ) (name : Name) (len : ℕ) (lfs : Lfs) : Option (ℤ × Lfs) :=
  match lfsFindInode lfs name false with
  | none => none
  | some none => some (ERR, lfs)
  | some (some i) =>
    let x := lfs.inodes i
    if x.lenReal < len then some (ERR, lfs)
    else if len = x.lenReal then some (OK, lfs)
    else
      match truncBlks len x.blks with
      | none => none
      | some (bs, n) =>
        (lfsAddPending fuel (lfs.setInode i { x with lenReal := len, blkCnt := n, blks := bs }) i).map
          fun lfs => (OK, lfs)

structure SameNames (lfs : Lfs) (w : World) (lfs' : Lfs) (w' : World) : Prop where
  secPerBlk : lfs'.secPerBlk = lfs.secPerBlk
  partOff : lfs'.partOff = lfs.partOff
  disk : SameDisk w w'
  find : ∀ name, lfsFindInode lfs' name false = lfsFindInode lfs name false
  crc : (∀ j, (lfs.inodes j).blks.All (CrcOk lfs w)) → ∀ j, (lfs'.inodes j).blks.All (CrcOk lfs' w')

variable {env : Env} {lfs lfs' lfs₁ lfs₂ : Lfs} {w w' w₁ w₂ : World} {b : Blk} {bs bs' rest rest' : Blks} {name : Name}
  {off bOff len i j k n fuel made : ℕ} {buf data : List UInt8} {front : List Blk} {r : ℤ} {x y : Inode} {found : Bool}

section Names

theorem SameShape.names (h : SameShape lfs w lfs' w') : SameNames lfs w lfs' w' :=
  ⟨h.secPerBlk, h.partOff, h.disk, h.find, h.crc⟩

theorem SameNames.trans (h : SameNames lfs w lfs₁ w₁) (h' : SameNames lfs₁ w₁ lfs₂ w₂) : SameNames lfs w lfs₂ w₂ where
  secPerBlk := h'.secPerBlk.trans h.secPerBlk
  partOff := h'.partOff.trans h.partOff
  disk := h.disk.trans h'.disk
  find name := (h'.find name).trans (h.find name)
  crc := h'.crc ∘ h.crc

theorem SameNames.device (h : SameNames lfs w lfs' w') (hd : Device lfs w) : Device lfs' w' := by
  refine ⟨?_, ?_⟩
  · rw [h.secPerBlk, h.disk.blockSize]
    exact hd.blocks
  · rw [h.partOff]
    exact hd.partOff

theorem SameNames.set {p : Option ℕ} {f : ℕ → Option ℕ} (hs : SameDisk w w')
    (hslot : y.free = (lfs.inodes i).free ∧ y.created = (lfs.inodes i).created ∧ y.name = (lfs.inodes i).name)
    (hcrc : (lfs.inodes i).blks.All (CrcOk lfs w) → y.blks.All (CrcOk lfs w')) :
    SameNames lfs w ((lfs.setInode i y).relink p f) w' := by
  refine ⟨rfl, rfl, hs, fun name => ?_, fun hall j => ?_⟩
  · refine findFrom_congr (by rfl) fun j => ?_
    rw [setInode_relink_inodes]
    by_cases hj : j = i
    · rw [hj, if_pos rfl]
      exact hslot
    · rw [if_neg hj]
      exact ⟨rfl, rfl, rfl⟩
  · rw [setInode_relink_inodes]
    split_ifs with hj
    · exact hcrc (hall i)
    · exact hs.all (hall j)

end Names

section Growing

theorem fresh_byte (off i : ℕ) : (Blks.cons (lfsCreateBlk off) bs).byte lfs w i =
    if i < lfsBlkSize then 0 else bs.byte lfs w (i - lfsBlkSize) := rfl

theorem fresh_crc (off : ℕ) : CrcOk lfs w (lfsCreateBlk off) := fun _ he => by cases he

theorem Blks.All.cons {P : Blk → Prop} (hb : P b) (h : bs.All P) : (Blks.cons b bs).All P := ⟨hb, h⟩

theorem seekBlk_add (hok : ∀ n, env.ok n = true) (h : seekBlk env true k bs w = some (found, front, rest, made, w')) :
    found = true ∧ front.length = k ∧ SameDisk w w' ∧ (∀ i, (rest.behind front).byte lfs w i = bs.byte lfs w i) ∧
      (bs.All (CrcOk lfs w) → (rest.behind front).All (CrcOk lfs w)) := by
  induction k generalizing bs front rest made w found with
  | zero =>
    cases bs with
    | wild => cases h
    | cons b bnext =>
      cases h
      exact ⟨rfl, rfl, ⟨rfl, rfl⟩, fun _ => rfl, id⟩
    | nil =>
      simp only [seekBlk, hok, Bool.true_eq_false, if_false, Option.some.injEq, Prod.mk.injEq] at h
      obtain ⟨rfl, rfl, rfl, -, rfl⟩ := h
      refine ⟨rfl, rfl, ⟨rfl, rfl⟩, fun i => ?_, fun _ => .cons (fresh_crc 0) trivial⟩
      change (Blks.cons (lfsCreateBlk 0) .nil).byte lfs w i = 0
      rw [fresh_byte]
      split_ifs <;> rfl
  | succ k ih =>
    cases bs with
    | wild => cases h
    | cons b bnext =>
      rw [seekBlk] at h
      obtain ⟨⟨found₁, front₁, rest₁, made₁, w₁⟩, hseek, he⟩ := Option.map_eq_some_iff.mp h
      cases he
      obtain ⟨hfound, hlen, hdisk, hbyte, hcrc⟩ := ih hseek
      refine ⟨hfound, congrArg (· + 1) hlen, hdisk, fun i => ?_, fun hc => .cons hc.1 (hcrc hc.2)⟩
      change (Blks.cons b (Blks.behind front₁ _)).byte lfs w i = _
      rw [Blks.byte_cons, Blks.byte_cons, hbyte]
    | nil =>
      simp only [seekBlk, hok, Bool.true_eq_false, if_false] at h
      obtain ⟨⟨found₁, front₁, rest₁, made₁, w₁⟩, hseek, he⟩ := Option.map_eq_some_iff.mp h
      cases he
      obtain ⟨hfound, hlen, hdisk, hbyte, hcrc⟩ := ih hseek
      refine ⟨hfound, congrArg (· + 1) hlen, SameDisk.next.trans hdisk, fun i => ?_,
        fun hc => .cons (fresh_crc _) (SameDisk.all (w := w.next) ⟨rfl, rfl⟩ (hcrc trivial))⟩
      change (Blks.cons _ (Blks.behind front₁ _)).byte lfs w i = 0
      rw [fresh_byte]
      split_ifs
      · rfl
      · exact SameDisk.next.byte.symm.trans (hbyte _)

theorem seekBlk_ends (hok : ∀ n, env.ok n = true) (he : bs.ends = true) (w : World) :
    ∃ front b rest made w', seekBlk env true k bs w = some (true, front, .cons b rest, made, w') ∧ rest.ends = true := by
  induction k generalizing bs w with
  | zero =>
    cases bs with
    | wild => cases he
    | cons b bnext => exact ⟨[], b, bnext, 0, w, rfl, he⟩
    | nil =>
      refine ⟨[], lfsCreateBlk 0, .nil, 1, w.next, ?_, rfl⟩
      simp only [seekBlk, hok, Bool.true_eq_false, if_false]
  | succ k ih =>
    cases bs with
    | wild => cases he
    | cons b bnext =>
      obtain ⟨front, b', rest, made, w', hseek, hends⟩ := @ih bnext he w
      refine ⟨b :: front, b', rest, made, w', ?_, hends⟩
      simp only [seekBlk, hseek]
      rfl
    | nil =>
      obtain ⟨front, b', rest, made, w', hseek, hends⟩ := @ih .nil rfl w.next
      refine ⟨lfsCreateBlk (lfsBlkSize * (k + 1)) :: front, b', rest, made + 1, w', ?_, hends⟩
      simp only [seekBlk, hok, Bool.true_eq_false, if_false, hseek]
      rfl

theorem nextBlk_spec (off : ℕ) (buf : List UInt8) (hok : ∀ n, env.ok n = true) (hc : bs.All (CrcOk lfs w)) :
    SameDisk w (nextBlk env off bs buf w).2.2 ∧
      (nextBlk env off bs buf w).1.All (CrcOk lfs (nextBlk env off bs buf w).2.2) ∧
      ∀ i, (nextBlk env off bs buf w).1.byte lfs (nextBlk env off bs buf w).2.2 i = bs.byte lfs w i := by
  cases bs with
  | wild => exact ⟨⟨rfl, rfl⟩, hc, fun _ => rfl⟩
  | cons b bnext => exact ⟨⟨rfl, rfl⟩, hc, fun _ => rfl⟩
  | nil =>
    cases buf with
    | nil => exact ⟨⟨rfl, rfl⟩, hc, fun _ => rfl⟩
    | cons v buf =>
      have hnext : nextBlk env off .nil (v :: buf) w = (.cons (lfsCreateBlk off) .wild, 1, w.next) := if_pos (hok _)
      rw [hnext]
      refine ⟨SameDisk.next, .cons (fresh_crc _) trivial, fun i => ?_⟩
      have hzero : Blks.nil.byte lfs w i = 0 := rfl
      rw [fresh_byte, hzero]
      split_ifs <;> rfl

theorem writeLoop_store (hok : ∀ n, env.ok n = true) (hd : Device lfs w) (hc : bs.All (CrcOk lfs w))
    (hb : bOff < lfsBlkSize) (h : writeLoop env lfs fuel bs off bOff buf w = some (OK, bs', made, w')) :
    SameDisk w w' ∧ bs'.All (CrcOk lfs w') ∧ ∀ i, bs'.byte lfs w' i = storeBytes (bs.byte lfs w) bOff buf i := by
  induction fuel generalizing bs off bOff buf w bs' made with
  | zero =>
    cases buf with
    | nil =>
      rw [writeLoop_nil] at h
      cases h
      exact ⟨⟨rfl, rfl⟩, hc, fun i => by rw [storeBytes_nil]⟩
    | cons v buf => cases h
  | succ fuel ih =>
    cases buf with
    | nil =>
      rw [writeLoop_nil] at h
      cases h
      exact ⟨⟨rfl, rfl⟩, hc, fun i => by rw [storeBytes_nil]⟩
    | cons v buf =>
      cases bs with
      | nil => cases h
      | wild => cases h
      | cons b bnext =>
        obtain ⟨b', w₁, hcache, hcached, hoff, hdisk, haddr⟩ := lfsCacheBlk_ok hok hd hc.1
        generalize hn : (if bOff + (v :: buf).length > lfsBlkSize then lfsBlkSize - bOff else (v :: buf).length) = n
        rw [writeLoop_next hcache hcached hn.symm] at h
        obtain ⟨hle, hin, -, hfull⟩ := part_le hb hn.symm
        obtain ⟨hdisk₁, hcrc₁, hbyte₁⟩ := nextBlk_spec (off + n) ((v :: buf).drop n) hok (hdisk.all hc.2)
        generalize nextBlk env (off + n) bnext ((v :: buf).drop n) w₁ = next at h hdisk₁ hcrc₁ hbyte₁
        obtain ⟨bnext', made₁, w₂⟩ := next
        obtain ⟨⟨r₁, bs₁, made₂, w₃⟩, hrec, he⟩ := Option.map_eq_some_iff.mp h
        cases he
        obtain ⟨hdisk₂, hcrc₂, hbyte₂⟩ := @ih w₂ bnext' _ (off + n) 0 _ _ (hdisk₁.device (hdisk.device hd)) hcrc₁ (by decide) hrec
        refine ⟨(hdisk.trans hdisk₁).trans hdisk₂, .cons (crcOk_cached hcached) hcrc₂, fun i => ?_⟩
        have hblk : blkBytes lfs w' { b' with
            empty := false, written := false, addr := storeBytes b'.addr bOff ((v :: buf).take n) } =
              storeBytes b'.addr bOff ((v :: buf).take n) := blkBytes_cached hcached
        rw [Blks.byte_cons, hblk, hbyte₂, funext hbyte₁, show bnext.byte lfs w₁ = bnext.byte lfs w from funext fun _ => hdisk.byte]
        exact store_split haddr hle hin hfull

theorem lfsWrite_content (hok : ∀ n, env.ok n = true) (hd : Device lfs w)
    (hc : ∀ j, (lfs.inodes j).blks.All (CrcOk lfs w)) (hf : lfsFindInode lfs name false = some (some i))
    (h : lfsWrite env fuel lfs name buf off w = some (OK, lfs', w')) :
    SameNames lfs w lfs' w' ∧ (∀ j, content lfs' w' j =
      if j = i then overwrite (content lfs w i) off buf else content lfs w j) ∧
    ∀ j, (lfs'.inodes j).lenReal =
      if j = i then max (lfs.inodes i).lenReal (off + buf.length) else (lfs.inodes j).lenReal := by
  rw [lfsWrite_found hf] at h
  split at h
  · cases h
  · rename_i found front rest made w₁ hseek
    obtain ⟨rfl, hfront, hdisk₁, hbyte₁, hcrc₁⟩ := seekBlk_add hok hseek
    obtain ⟨hcfront, hcrest⟩ := Blks.all_behind.mp (hcrc₁ (hc i))
    simp only [Bool.true_eq_false, if_false] at h
    split at h
    · cases h
    · rename_i r rest' made' w₂ hloop
      by_cases hr : r = OK
      · subst hr
        simp only [ne_eq, not_true_eq_false, if_false] at h
        obtain ⟨hdisk₂, hcrc₂, hbyte₂⟩ := writeLoop_store hok (hdisk₁.device hd) (hdisk₁.all hcrest) (align_lt off) hloop
        have hdisk := hdisk₁.trans hdisk₂
        obtain ⟨lfs₁, hpend, he⟩ := Option.map_eq_some_iff.mp h
        cases he
        obtain ⟨p, f, rfl⟩ := lfsAddPending_relink hpend
        generalize hy : (if (lfs.inodes i).lenReal < off + buf.length then
            ({ lfs.inodes i with
              blks := rest'.behind front, blkCnt := (lfs.inodes i).blkCnt + made + made'
              lenReal := off + buf.length } : Inode)
          else { lfs.inodes i with
              blks := rest'.behind front, blkCnt := (lfs.inodes i).blkCnt + made + made' }) = y
        obtain ⟨hslot, hblks, hreal⟩ : (y.free = (lfs.inodes i).free ∧ y.created = (lfs.inodes i).created ∧
            y.name = (lfs.inodes i).name) ∧ y.blks = rest'.behind front ∧
            y.lenReal = max (lfs.inodes i).lenReal (off + buf.length) := by
          rw [← hy]
          split_ifs
          · exact ⟨⟨rfl, rfl, rfl⟩, rfl, by simp only; omega⟩
          · exact ⟨⟨rfl, rfl, rfl⟩, rfl, by simp only; omega⟩
        have hall : y.blks.All (CrcOk lfs w') := by
          rw [hblks]
          exact Blks.all_behind.mpr ⟨fun b hb => hdisk.crcOk.mpr (hcfront b hb), hcrc₂⟩
        have halign : alignDown off lfsBlkSize = lfsBlkSize * front.length := by rw [hfront, align_eq]
        have hdown := align_le off
        refine ⟨SameNames.set hdisk hslot fun _ => hall, fun j => ?_, fun j => ?_⟩
        · rw [content_set hdisk]
          split_ifs
          · funext k
            rw [hblks]
            unfold overwrite content
            rw [← funext hbyte₁]
            by_cases hk : k < lfsBlkSize * front.length
            · rw [Blks.byte_behind_lt rest hk, hdisk.byte]
              exact (if_neg (by omega)).symm
            · rw [Blks.byte_behind_ge (by omega), hbyte₂, show rest.byte lfs w₁ = rest.byte lfs w from funext fun _ => hdisk₁.byte]
              unfold storeBytes
              by_cases hin : off ≤ k ∧ k < off + buf.length
              · rw [if_pos hin, if_pos (by omega)]
                exact congrArg (buf.getD · 0) (by omega)
              · rw [if_neg hin, if_neg (by omega), Blks.byte_behind_ge (by omega)]
          · rfl
        · rw [setInode_relink_inodes]
          split_ifs
          · exact hreal
          · rfl
      · simp only [ne_eq, hr, not_false_eq_true, if_true] at h
        cases h

theorem setInode_links (hy : y.wnext = (lfs.inodes i).wnext) : (lfs.setInode i y).wnext = lfs.wnext := by
  funext j
  unfold Lfs.wnext
  rw [Lfs.setInode_inodes]
  split_ifs with hj
  · rw [hj, hy]
  · rfl

theorem lfsAddPending_pending (h : lfsAddPending fuel lfs i = some lfs') : lfs'.pending = some i := by
  unfold lfsAddPending at h
  split at h
  · cases h
  · cases h
    rfl

theorem lfsAddPending_first (h : lfs.pending = some i) (fuel : ℕ) : ∃ lfs', lfsAddPending (fuel + 1) lfs i = some lfs' := by
  have hlink : lfs.link none = some i := h
  unfold lfsAddPending lfsRemovePending removePendingFrom
  rw [hlink]
  dsimp only
  rw [if_pos rfl]
  exact ⟨_, rfl⟩

theorem lfsWrite_one (off : ℕ) (v : UInt8) (hok : ∀ n, env.ok n = true) (hd : Device lfs w)
    (hc : ∀ j, (lfs.inodes j).blks.All (CrcOk lfs w)) (hf : lfsFindInode lfs name false = some (some i))
    (he : (lfs.inodes i).blks.ends = true)
    (hpend : ∀ y : Inode, y.wnext = (lfs.inodes i).wnext → ∃ lfs', lfsAddPending fuel (lfs.setInode i y) i = some lfs') :
    ∃ lfs' w', lfsWrite env fuel lfs name [v] off w = some (OK, lfs', w') := by
  obtain ⟨front, b, rest, made, w₁, hseek, -⟩ := @seekBlk_ends env (lfs.inodes i).blks (off / lfsBlkSize) hok he w
  obtain ⟨-, -, hdisk₁, -, hcrc₁⟩ := seekBlk_add hok hseek
  have hcrest := (Blks.all_behind.mp (hcrc₁ (hc i))).2
  obtain ⟨b', w₂, hcache, hcached, -⟩ := lfsCacheBlk_ok hok (hdisk₁.device hd) (hdisk₁.all hcrest).1
  have hn : 1 = if off - alignDown off lfsBlkSize + [v].length > lfsBlkSize
      then lfsBlkSize - (off - alignDown off lfsBlkSize) else [v].length := by
    have hlt := align_lt off
    rw [List.length_singleton, if_neg (by omega)]
  have hloop := @writeLoop_next env lfs w₁ w₂ b b' rest off _ 1 0 [] v hcache hcached hn
  have hdrop : [v].drop 1 = [] := rfl
  rw [hdrop, nextBlk_there fun _ => rfl, writeLoop_nil] at hloop
  rw [lfsWrite_found hf, hseek]
  simp only [Bool.true_eq_false, if_false]
  have hlen : [v].length = 0 + 1 := rfl
  rw [hlen, hloop]
  simp only [Option.map_some, ne_eq, not_true_eq_false, if_false]
  have hdone : ∀ y : Inode, y.wnext = (lfs.inodes i).wnext →
      ∃ lfs' w', (lfsAddPending fuel (lfs.setInode i y) i).map (fun lfs => (OK, lfs, w₂)) = some (OK, lfs', w') := by
    intro y hy
    obtain ⟨lfs', hadd⟩ := hpend y hy
    exact ⟨_, _, Option.map_eq_some_iff.mpr ⟨_, hadd, rfl⟩⟩
  split_ifs
  · exact hdone _ rfl
  · exact hdone _ rfl

end Growing

section Cutting

def Blks.upTo (bs : Blks) (len : ℕ) : ℕ := (bs.offs.takeWhile (· < len)).length

theorem truncBlks_spec (h : truncBlks len bs = some (bs', n)) :
    ∃ (front : List Blk) (rest : Blks), bs = rest.behind front ∧ bs' = Blks.nil.behind front ∧ n = front.length ∧
      n = bs.upTo len ∧ bs.ends = true := by
  induction bs generalizing bs' n with
  | wild => cases h
  | nil =>
    cases h
    exact ⟨[], .nil, rfl, rfl, rfl, rfl, rfl⟩
  | cons b bnext ih =>
    rw [truncBlks] at h
    unfold Blks.upTo
    rw [Blks.offs]
    split_ifs at h with hb he
    · cases h
      refine ⟨[], .cons b bnext, rfl, rfl, rfl, ?_, he⟩
      rw [List.takeWhile_cons_of_neg (by simpa using hb)]
      rfl
    · obtain ⟨⟨bs₁, n₁⟩, hrec, heq⟩ := Option.map_eq_some_iff.mp h
      cases heq
      obtain ⟨front, rest, rfl, rfl, hn, hupTo, hends⟩ := ih hrec
      refine ⟨b :: front, rest, rfl, rfl, congrArg (· + 1) hn, ?_, hends⟩
      rw [List.takeWhile_cons_of_pos (by simpa using hb), List.length_cons]
      exact congrArg (· + 1) hupTo

theorem Blks.byte_ge (h : lfsBlkSize * bs.offs.length ≤ k) : bs.byte lfs w k = 0 := by
  induction bs generalizing k with
  | nil => rfl
  | wild => rfl
  | cons b bnext ih =>
    rw [Blks.size_cons] at h
    rw [Blks.byte_cons, if_neg (by omega)]
    exact ih (by omega)

def Inode.kept (x : Inode) (len : ℕ) : ℕ := if len = x.lenReal then x.blks.offs.length else x.blks.upTo len

def Inode.keptCnt (x : Inode) (len : ℕ) : ℕ := if len = x.lenReal then x.blkCnt else x.blks.upTo len

theorem lfsTrunc_spec (hf : lfsFindInode lfs name false = some (some i))
    (he : len = (lfs.inodes i).lenReal → (lfs.inodes i).blks.ends = true)
    (h : lfsTrunc fuel name len lfs = some (OK, lfs')) (w : World) :
    SameNames lfs w lfs' w ∧ (lfs'.inodes i).lenReal = len ∧ (lfs'.inodes i).blkCnt = (lfs.inodes i).keptCnt len ∧
      (lfs'.inodes i).blks.offs.length = (lfs.inodes i).kept len ∧ (lfs'.inodes i).blks.ends = true ∧
      (lfs' = lfs ∨ lfs'.pending = some i) ∧
      ∀ k < lfsBlkSize * (lfs.inodes i).kept len, content lfs' w i k = content lfs w i k := by
  unfold lfsTrunc at h
  rw [hf] at h
  dsimp only at h
  unfold Inode.kept Inode.keptCnt
  split_ifs at h with hlt heq
  · cases h
  · cases h
    rw [if_pos heq, if_pos heq]
    exact ⟨⟨rfl, rfl, ⟨rfl, rfl⟩, fun _ => rfl, id⟩, heq.symm, rfl, rfl, he heq, .inl rfl, fun _ _ => rfl⟩
  · rw [if_neg heq, if_neg heq]
    split at h
    · cases h
    · rename_i bs n htrunc
      obtain ⟨front, rest, hblks, rfl, hn, hupTo, hends⟩ := truncBlks_spec htrunc
      obtain ⟨lfs₁, hpend, hlfs⟩ := Option.map_eq_some_iff.mp h
      cases hlfs
      have hfirst := lfsAddPending_pending hpend
      obtain ⟨p, f, rfl⟩ := lfsAddPending_relink hpend
      have hinode := @setInode_relink_inodes lfs i i
        { lfs.inodes i with lenReal := len, blkCnt := n, blks := Blks.nil.behind front } p f
      rw [if_pos rfl] at hinode
      refine ⟨SameNames.set ⟨rfl, rfl⟩ ⟨rfl, rfl, rfl⟩ fun hc => ?_, ?_, ?_, ?_, ?_, .inr hfirst, fun k hk => ?_⟩
      · rw [hblks] at hc
        exact Blks.all_behind.mpr ⟨(Blks.all_behind.mp hc).1, trivial⟩
      · rw [hinode]
      · rw [hinode]
        exact hupTo
      · rw [hinode, ← hupTo, hn]
        change (Blks.behind front .nil).offs.length = _
        exact Blks.length_behind
      · rw [hinode]
        exact Blks.ends_behind
      · rw [content_set ⟨rfl, rfl⟩, if_pos rfl]
        unfold content
        rw [hblks]
        exact Blks.byte_behind_lt rest (by rw [← hn, hupTo]; exact hk)

/-- Reads of any files, and writes that go through; the set is what was written of inode `i`. -/
inductive Later (env : Env) (i : ℕ) (s : Lfs × World) : Set ℕ → Lfs × World → Prop
  | start : Later env i s ∅ s
  | read {P : Set ℕ} {lfs lfs' : Lfs} {w w' : World} {name : Name} {off len : ℕ} {r : ℤ} {data : List UInt8} :
    Later env i s P (lfs, w) → lfsRead env lfs name off len w = some (r, data, lfs', w') → Later env i s P (lfs', w')
  | write {P : Set ℕ} {lfs lfs' : Lfs} {w w' : World} {name : Name} {off fuel : ℕ} {buf : List UInt8} :
    Later env i s P (lfs, w) → lfsWrite env fuel lfs name buf off w = some (OK, lfs', w') →
    Later env i s (P ∪ {k | lfsFindInode lfs name false = some (some i) ∧ off ≤ k ∧ k < off + buf.length}) (lfs', w')

structure Truncated (env : Env) (name : Name) (i len : ℕ) (lfs lfs' : Lfs) (w : World) : Prop where
  length : (lfs'.inodes i).lenReal = len
  front : ∀ off n, 0 < n → off + n ≤ len → ∃ lfs₁ w₁, lfsRead env lfs' name off n w =
    some (OK, (List.range n).map fun k => content lfs w i (off + k), lfs₁, w₁)
  behind : ∀ P lfs₁ w₁, Later env i (lfs', w) P (lfs₁, w₁) → ∀ k, len ≤ k → k < (lfs₁.inodes i).lenReal → k ∉ P →
    content lfs₁ w₁ i k = 0

/-- The blocks that are left reach to `len`, `lfs_inode_get_blk` looks for the last one, and what they hold from `len` on
is zero already. -/
structure TruncGood (lfs : Lfs) (w : World) (i len : ℕ) : Prop where
  reach : len ≤ lfsBlkSize * (lfs.inodes i).kept len
  product : 0 < len → alignDown (len - 1) lfsBlkSize ≤ (lfs.inodes i).keptCnt len * lfsBlkSize % 2 ^ 32
  zero : ∀ k, len ≤ k → k < lfsBlkSize * (lfs.inodes i).kept len → content lfs w i k = 0

theorem Later.zero (hok : ∀ n, env.ok n = true) (hd : Device lfs w) (hc : ∀ j, (lfs.inodes j).blks.All (CrcOk lfs w))
    (hz : ∀ k, len ≤ k → content lfs w i k = 0) {P : Set ℕ} (h : Later env i (lfs, w) P (lfs', w')) :
    SameNames lfs w lfs' w' ∧ ∀ k, len ≤ k → k ∉ P → content lfs' w' i k = 0 := by
  generalize hs : (lfs', w') = s at h
  induction h generalizing lfs' w' with
  | start =>
    cases hs
    exact ⟨⟨rfl, rfl, ⟨rfl, rfl⟩, fun _ => rfl, id⟩, fun k hk _ => hz k hk⟩
  | read _ hread ih =>
    cases hs
    obtain ⟨hnames, hzero⟩ := ih rfl
    have hsame := lfsRead_same hok (hnames.device hd) (hnames.crc hc) hread
    exact ⟨hnames.trans hsame.toSameShape.names, fun k hk hP => (congrFun (hsame.content i) k).trans (hzero k hk hP)⟩
  | @write P lfs₁ lfs₂ w₁ w₂ name off fuel buf _ hwrite ih =>
    cases hs
    obtain ⟨hnames, hzero⟩ := ih rfl
    have hfound : ∃ j, lfsFindInode lfs₁ name false = some (some j) := by
      unfold lfsWrite at hwrite
      split at hwrite
      · cases hwrite
      · cases hwrite
      · exact ⟨_, ‹_›⟩
    obtain ⟨j, hj⟩ := hfound
    obtain ⟨hnames', hcontent, -⟩ := lfsWrite_content hok (hnames.device hd) (hnames.crc hc) hj hwrite
    refine ⟨hnames.trans hnames', fun k hk hP => ?_⟩
    rw [Set.mem_union, not_or] at hP
    rw [hcontent]
    split_ifs with hij
    · subst hij
      unfold overwrite storeBytes
      rw [if_neg fun hin => hP.2 ⟨hj, hin⟩]
      exact hzero k hk hP.1
    · exact hzero k hk hP.1

theorem lfsTrunc_iff {l : List ℕ} (hok : ∀ n, env.ok n = true) (hd : Device lfs w)
    (hc : ∀ j, (lfs.inodes j).blks.All (CrcOk lfs w)) (hf : lfsFindInode lfs name false = some (some i))
    (he : len = (lfs.inodes i).lenReal → (lfs.inodes i).blks.ends = true) (hp : Chain lfs.wnext lfs.pending l)
    (hl : ∀ x ∈ l, x < lfs.nInodes) (h : lfsTrunc fuel name len lfs = some (OK, lfs')) :
    Truncated env name i len lfs lfs' w ↔ TruncGood lfs w i len := by
  obtain ⟨hnames, hreal, hcnt, hkept, hends, hpending, hbytes⟩ := lfsTrunc_spec hf he h w
  have hd' := hnames.device hd
  have hc' := hnames.crc hc
  have hf' := (hnames.find name).trans hf
  have hread : ∀ off n, off + n ≤ len → _ := fun off n hle =>
    @lfsRead_blocks env lfs' w off n i _ name hok hd' (hc' i) hf' hkept (hreal ▸ hle)
  constructor
  · rintro ⟨-, hfront, hbehind⟩
    -- one read of the last byte
    have hlast : 0 < len → len ≤ lfsBlkSize * (lfs.inodes i).kept len ∧
        alignDown (len - 1) lfsBlkSize ≤ (lfs.inodes i).keptCnt len * lfsBlkSize % 2 ^ 32 := by
      intro hpos
      obtain ⟨lfs₁, w₁, hok₁⟩ := hfront (len - 1) 1 (by decide) (by omega)
      rcases hread (len - 1) 1 (by omega) with ⟨-, -, hprod, hfit⟩ | ⟨hno, -⟩
      · rw [hcnt] at hprod
        exact ⟨by omega, hprod⟩
      · exact absurd hok₁ (hno _ _ _)
    refine ⟨?_, fun hpos => (hlast hpos).2, fun k hk hlt => ?_⟩
    · rcases Nat.eq_zero_or_pos len with rfl | hpos
      · exact Nat.zero_le _
      · exact (hlast hpos).1
    · -- one write of the byte behind
      have hpend : ∃ fuel, ∀ y : Inode, y.wnext = (lfs'.inodes i).wnext →
          ∃ lfs'', lfsAddPending fuel (lfs'.setInode i y) i = some lfs'' := by
        rcases hpending with rfl | hfirst
        · refine ⟨l.length + 1, fun y hy => ?_⟩
          have hc := (setInode_links hy).symm ▸ hp
          obtain ⟨p, f, hadd, -⟩ := @lfsAddPending_eq (lfs'.setInode i y) i _ l hc hl (Nat.lt_succ_self _)
          exact ⟨_, hadd⟩
        · exact ⟨1, fun y _ => @lfsAddPending_first (lfs'.setInode i y) i hfirst 0⟩
      obtain ⟨fuel', hpend⟩ := hpend
      obtain ⟨lfs₁, w₁, hwrite⟩ := lfsWrite_one (k + 1) 0 hok hd' hc' hf' hends hpend
      obtain ⟨-, hcontent, hreal₁⟩ := lfsWrite_content hok hd' hc' hf' hwrite
      have hlen : k < (lfs₁.inodes i).lenReal := by
        rw [hreal₁, if_pos rfl, List.length_singleton]
        omega
      have hout : k ∉ (∅ : Set ℕ) ∪
          {k' | lfsFindInode lfs' name false = some (some i) ∧ k + 1 ≤ k' ∧ k' < k + 1 + [(0 : UInt8)].length} := by
        rw [Set.empty_union]
        exact fun hin => absurd hin.2.1 (by omega)
      have hzero := hbehind _ _ _ (.write .start hwrite) k hk hlen hout
      rw [hcontent, if_pos rfl] at hzero
      unfold overwrite storeBytes at hzero
      rw [if_neg (by omega)] at hzero
      rw [← hbytes k hlt]
      exact hzero
  · rintro ⟨hreach, hproduct, hzero⟩
    refine ⟨hreal, fun off n hn hle => ?_, fun P lfs₁ w₁ hlater k hk _ hP => ?_⟩
    · have hdown : alignDown off lfsBlkSize ≤ alignDown (len - 1) lfsBlkSize :=
        Nat.mul_le_mul_right _ (Nat.div_le_div_right (by omega))
      have hle' := align_le off
      have hprod := hproduct (by omega)
      rcases hread off n hle with ⟨⟨lfs₁, w₁, hdata⟩, -⟩ | ⟨-, hno⟩
      · refine ⟨lfs₁, w₁, hdata.trans ?_⟩
        have hsame : ((List.range n).map fun k => content lfs' w i (off + k)) =
            (List.range n).map fun k => content lfs w i (off + k) :=
          List.map_congr_left fun k hk => hbytes _ (by
            have := List.mem_range.mp hk
            omega)
        rw [hsame]
      · rw [hcnt] at hno
        exact absurd ⟨by omega, by omega, by omega⟩ hno
    · have hrest : ∀ k, len ≤ k → content lfs' w i k = 0 := by
        intro k hk
        by_cases hlt : k < lfsBlkSize * (lfs.inodes i).kept len
        · rw [hbytes k hlt]
          exact hzero k hk hlt
        · exact Blks.byte_ge (by rw [hkept]; omega)
      exact (hlater.zero hok hd' hc' hrest).2 k hk hP

theorem lfsTrunc_iff_written : ∃ lfs₁ w₁ lfs₂,
    lfsWrite calmEnv 1 (freshFile 1) (fun _ => 0) [7] 50 blankWorld = some (OK, lfs₁, w₁) ∧
    lfsTrunc 1 (fun _ => 0) 100 lfs₁ = some (OK, lfs₂) ∧ content lfs₁ w₁ 0 50 = 7 ∧
    Truncated calmEnv (fun _ => 0) 0 100 lfs₁ lfs₂ w₁ := by
  have heval : ((lfsWrite calmEnv 1 (freshFile 1) (fun _ => 0) [7] 50 blankWorld).bind fun a =>
      (lfsTrunc 1 (fun _ => 0) 100 a.2.1).map fun t =>
        (a.1, t.1, (a.2.1.inodes 0).kept 100, (a.2.1.inodes 0).keptCnt 100,
          decide (a.2.1.pending = some 0 ∧ a.2.1.wnext 0 = none ∧ a.2.1.nInodes = 1))) =
      some (OK, OK, 1, 1, true) := by decide +kernel
  obtain ⟨⟨r₁, lfs₁, w₁⟩, hwrite, heval⟩ := Option.bind_eq_some_iff.mp heval
  obtain ⟨⟨r₂, lfs₂⟩, htrunc, heval⟩ := Option.map_eq_some_iff.mp heval
  simp only [Prod.mk.injEq] at heval
  obtain ⟨rfl, rfl, hkept, hcnt, hchain⟩ := heval
  obtain ⟨hpending, hwnext, hcount⟩ := of_decide_eq_true hchain
  obtain ⟨hnames, hcontent, hreal⟩ := lfsWrite_content (fun _ => rfl) (freshFile_device 1) (freshFile_crc 1)
    (freshFile_find 1) hwrite
  have hbyte : ∀ k, content lfs₁ w₁ 0 k = if k = 50 then 7 else 0 := by
    intro k
    rw [hcontent, if_pos rfl]
    have hfresh : content (freshFile 1) blankWorld 0 k = 0 := by
      change (Blks.cons (lfsCreateBlk 0) .nil).byte _ _ k = 0
      rw [fresh_byte]
      split_ifs <;> rfl
    unfold overwrite storeBytes
    rw [hfresh]
    by_cases hk : k = 50
    · rw [hk]
      rfl
    · rw [if_neg hk, if_neg]
      exact fun h => hk (Nat.le_antisymm (Nat.le_of_lt_succ h.2) h.1)
  have hgood : TruncGood lfs₁ w₁ 0 100 := by
    refine ⟨?_, fun _ => ?_, fun k hk _ => ?_⟩
    · rw [hkept]
      decide
    · rw [hcnt]
      decide
    rw [hbyte, if_neg (by omega)]
  refine ⟨lfs₁, w₁, lfs₂, hwrite, htrunc, hbyte 50, ?_⟩
  refine (lfsTrunc_iff (l := [0]) (fun _ => rfl) (hnames.device (freshFile_device 1)) (hnames.crc (freshFile_crc 1))
    ((hnames.find _).trans (freshFile_find 1)) ?_ ?_ ?_ htrunc).mpr hgood
  · intro h
    rw [hreal, if_pos rfl] at h
    exact absurd h (by decide)
  · rw [hpending]
    exact ⟨rfl, hwnext⟩
  · intro x hx
    rw [List.mem_singleton.mp hx, hcount]
    decide

theorem lfsTrunc_keeps_tail : ∃ lfs₁ w₁ lfs₂,
    lfsWrite calmEnv 1 (freshFile 1) (fun _ => 0) [7] 200 blankWorld = some (OK, lfs₁, w₁) ∧
    lfsTrunc 1 (fun _ => 0) 100 lfs₁ = some (OK, lfs₂) ∧ ¬ Truncated calmEnv (fun _ => 0) 0 100 lfs₁ lfs₂ w₁ := by
  have heval : ((lfsWrite calmEnv 1 (freshFile 1) (fun _ => 0) [7] 200 blankWorld).bind fun a =>
      (lfsTrunc 1 (fun _ => 0) 100 a.2.1).bind fun t =>
        (lfsWrite calmEnv 1 t.2 (fun _ => 0) [1] 300 a.2.2).map fun c =>
          (a.1, t.1, c.1, (c.2.1.inodes 0).lenReal, content c.2.1 c.2.2 0 200)) = some (OK, OK, OK, 301, 7) := by
    decide +kernel
  obtain ⟨⟨r₁, lfs₁, w₁⟩, hwrite, heval⟩ := Option.bind_eq_some_iff.mp heval
  obtain ⟨⟨r₂, lfs₂⟩, htrunc, heval⟩ := Option.bind_eq_some_iff.mp heval
  obtain ⟨⟨r₃, lfs₃, w₃⟩, hgrow, heval⟩ := Option.map_eq_some_iff.mp heval
  simp only [Prod.mk.injEq] at heval
  obtain ⟨rfl, rfl, rfl, hreal, hbyte⟩ := heval
  refine ⟨lfs₁, w₁, lfs₂, hwrite, htrunc, fun h => ?_⟩
  have hzero := h.behind _ _ _ (.write .start hgrow) 200 (by decide) (by rw [hreal]; decide) fun hin => by
    rw [Set.empty_union] at hin
    exact absurd hin.2.1 (by decide)
  rw [hbyte] at hzero
  exact absurd hzero (by decide)

end Cutting

end Agatha.Fs
