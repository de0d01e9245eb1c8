import Mathlib.Data.List.TakeWhile
import Agatha.Fs.Truncate

namespace Agatha.Fs

open Library Library.Bytes Library.LinkedList

/-- `addr` and `mem_fid` are set: `lfs_create_blk` leaves them alone until the block comes into memory, and blocks that
were found on the disk, which are `written`, have them from the start. -/
def Blk.FieldsSet (b : Blk) : Prop := b.cached = true ∨ b.written = true

structure Inode.Sound (x : Inode) : Prop extends x.Listed where
  set : x.blks.All Blk.FieldsSet
  len : x.lenReal ≤ lfsBlkSize * x.blkCnt

def ListsOk (lfs : Lfs) : Prop := ∀ i < lfs.nInodes, (lfs.inodes i).created = true → (lfs.inodes i).Sound

inductive FileCall where
  | create (name : Name)
  | write (name : Name) (buf : List UInt8) (off : ℕ)
  | trunc (name : Name) (len : ℕ)
  | rm (name : Name)

def FileCall.run (env : Env) (fuel : ℕ) (lfs : Lfs) (w : World) : FileCall → Option (ℤ × Lfs × World)
  | create name => (lfsCreate fuel name lfs).map fun (r, lfs) => (r, lfs, w)
  | write name buf off => lfsWrite env fuel lfs name buf off w
  | trunc name len => (lfsTrunc fuel name len lfs).map fun (r, lfs) => (r, lfs, w)
  | rm name => (lfsRm fuel name lfs).map fun (r, lfs) => (r, lfs, w)

/-- A write to `len` bytes from `off` on makes no block, or the first one, which comes into memory at once. -/
inductive WriteFits (env : Env) (w : World) (x : Inode) (off len : ℕ) : Prop
  | there (first : off / lfsBlkSize < x.blkCnt) (last : off + len ≤ lfsBlkSize * x.blkCnt)
  | refused (past : x.blkCnt ≤ off / lfsBlkSize) (memory : env.ok w.calls = false)
  | first (none : x.blkCnt = 0) (pos : 0 < len) (last : off + len ≤ lfsBlkSize)
      (request : env.ok (w.calls + 1) = true) (map : env.ok (w.calls + 2) = true)

def FileCall.Fits (env : Env) (lfs : Lfs) (w : World) : FileCall → Prop
  | write name buf off => ∀ i, lfsFindInode lfs name false = some (some i) →
    WriteFits env w (lfs.inodes i) off buf.length
  | _ => True

inductive FileRun (env : Env) (fuel : ℕ) (s : Lfs × World) : Lfs × World → Prop
  | start : FileRun env fuel s s
  | call {lfs lfs' : Lfs} {w w' : World} {r : ℤ} (c : FileCall) : FileRun env fuel s (lfs, w) → c.Fits env lfs w →
    c.run env fuel lfs w = some (r, lfs', w') → FileRun env fuel s (lfs', w')

variable {env : Env} {lfs lfs' lfs₁ : Lfs} {w w' w₁ w₂ : World} {b b' : Blk} {bs bs' rest rest' : Blks} {name : Name}
  {off bOff len i j k n fuel made : ℕ} {buf data : List UInt8} {front : List Blk} {r : ℤ} {x y : Inode} {found : Bool}

section Steps

theorem ListsOk.set {p : Option ℕ} {f : ℕ → Option ℕ} (h : ListsOk lfs) (hy : y.created = true → y.Sound) :
    ListsOk ((lfs.setInode i y).relink p f) := by
  intro j hj hc
  rw [setInode_relink_inodes] at hc ⊢
  by_cases hji : j = i
  · rw [if_pos hji] at hc ⊢
    exact ⟨⟨(hy hc).ends, (hy hc).offs⟩, (hy hc).set, (hy hc).len⟩
  · rw [if_neg hji] at hc ⊢
    exact ⟨⟨(h j hj hc).ends, (h j hj hc).offs⟩, (h j hj hc).set, (h j hj hc).len⟩

theorem lfsCreate_lists (h : ListsOk lfs) (hc : lfsCreate fuel name lfs = some (r, lfs')) : ListsOk lfs' := by
  unfold lfsCreate at hc
  split at hc
  · cases hc
  · cases hc
    exact h
  · split at hc
    · cases hc
    · cases hc
      exact h
    · obtain ⟨lfs₁, hpend, he⟩ := Option.map_eq_some_iff.mp hc
      cases he
      obtain ⟨p, f, rfl⟩ := lfsAddPending_relink hpend
      exact h.set fun _ => ⟨⟨rfl, rfl⟩, trivial, Nat.zero_le _⟩

theorem lfsRm_lists (h : ListsOk lfs) (hc : lfsRm fuel name lfs = some (r, lfs')) : ListsOk lfs' := by
  unfold lfsRm at hc
  split at hc
  · cases hc
  · cases hc
    exact h
  · split_ifs at hc
    obtain ⟨lfs₁, hpend, he⟩ := Option.map_eq_some_iff.mp hc
    cases he
    obtain ⟨p, f, rfl⟩ := lfsAddPending_relink hpend
    exact h.set nofun

theorem findFrom_found {h : ℕ} (hi : i < lfs.nInodes) (hf : findFrom lfs name false h fuel i = some (some j)) :
    j < lfs.nInodes ∧ (lfs.inodes j).created = true := by
  induction fuel generalizing i with
  | zero => cases hf
  | succ fuel ih =>
    unfold findFrom at hf
    simp only [Bool.false_eq_true, if_false] at hf
    split_ifs at hf with hfree hname hwrap
    · cases hf
    · cases hf
      exact ⟨hi, hname.1⟩
    · cases hf
    · exact ih (Nat.mod_lt _ (Nat.zero_lt_of_lt hi)) hf

theorem lfsFindInode_found (hf : lfsFindInode lfs name false = some (some i)) :
    i < lfs.nInodes ∧ (lfs.inodes i).created = true := by
  have hpos : 0 < lfs.nInodes := by
    apply Nat.pos_of_ne_zero
    intro h0
    unfold lfsFindInode at hf
    rw [h0] at hf
    cases hf
  exact findFrom_found (Nat.mod_lt _ hpos) hf

theorem upTo_range (n : ℕ) : (((List.range n).map (lfsBlkSize * ·)).takeWhile (· < len)).length ≤ n ∧
    (len ≤ lfsBlkSize * n → len ≤ lfsBlkSize * (((List.range n).map (lfsBlkSize * ·)).takeWhile (· < len)).length) := by
  induction n with
  | zero => exact ⟨le_rfl, id⟩
  | succ n ih =>
    obtain ⟨hle, hreach⟩ := ih
    rw [List.range_succ, List.map_append, List.map_singleton, List.takeWhile_append]
    by_cases hall : (((List.range n).map (lfsBlkSize * ·)).takeWhile (· < len)).length =
        ((List.range n).map (lfsBlkSize * ·)).length
    · rw [if_pos hall]
      by_cases hn : lfsBlkSize * n < len
      · rw [List.takeWhile_cons_of_pos (by simpa using hn), List.takeWhile_nil, List.length_append, List.length_map,
          List.length_range, List.length_singleton]
        exact ⟨le_rfl, id⟩
      · rw [List.takeWhile_cons_of_neg (by simpa using hn), List.append_nil, List.length_map, List.length_range]
        exact ⟨Nat.le_succ n, fun _ => by omega⟩
    · rw [if_neg hall]
      refine ⟨hle.trans (Nat.le_succ n), fun _ => ?_⟩
      -- the first block that is not below `len` is among those in front
      apply hreach
      by_contra hlt
      apply hall
      rw [List.takeWhile_eq_self_iff.mpr]
      intro o ho
      obtain ⟨k, hk, rfl⟩ := List.mem_map.mp ho
      have hkn := Nat.mul_le_mul_left lfsBlkSize (List.mem_range.mp hk).le
      exact decide_eq_true (by omega)

theorem Inode.Sound.trunc (h : x.Sound) (ht : truncBlks len x.blks = some (bs, n)) (hlen : len ≤ x.lenReal) :
    ({ x with lenReal := len, blkCnt := n, blks := bs } : Inode).Sound := by
  obtain ⟨front, rest, hblks, rfl, hn, hupTo, -⟩ := truncBlks_spec ht
  obtain ⟨hle, hreach⟩ := @upTo_range len x.blkCnt
  have hoffs := h.offs
  unfold Blks.upTo at hupTo
  rw [hoffs] at hupTo
  rw [← hupTo] at hle hreach
  rw [hblks, Blks.offs_behind] at hoffs
  have hfront : front.map Blk.off = (List.range n).map (lfsBlkSize * ·) := by
    have htake := congrArg (List.take n) hoffs
    rwa [List.take_left' (by rw [List.length_map, hn]), ← List.map_take, List.take_range, Nat.min_eq_left hle] at htake
  have hset := h.set
  rw [hblks] at hset
  refine ⟨⟨Blks.ends_behind, ?_⟩, Blks.all_behind.mpr ⟨(Blks.all_behind.mp hset).1, trivial⟩, ?_⟩
  · change (Blks.behind front .nil).offs = _
    rw [Blks.offs_behind, hfront]
    exact List.append_nil _
  · exact hreach (hlen.trans h.len)

theorem lfsTrunc_lists (h : ListsOk lfs) (hc : lfsTrunc fuel name len lfs = some (r, lfs')) : ListsOk lfs' := by
  unfold lfsTrunc at hc
  split at hc
  · cases hc
  · cases hc
    exact h
  · rename_i i hf
    obtain ⟨hi, hcreated⟩ := lfsFindInode_found hf
    dsimp only at hc
    split_ifs at hc with hlt heq
    · cases hc
      exact h
    · cases hc
      exact h
    · split at hc
      · cases hc
      · rename_i bs n htrunc
        obtain ⟨lfs₁, hpend, he⟩ := Option.map_eq_some_iff.mp hc
        cases he
        obtain ⟨p, f, rfl⟩ := lfsAddPending_relink hpend
        exact h.set fun _ => (h i hi hcreated).trunc htrunc (by omega)

theorem lfsCacheBlk_cases (h : lfsCacheBlk env lfs b w = (r, b', w')) :
    b' = b ∨ r = OK ∧ ∃ a, b' = { b with cached := true, addr := a } := by
  unfold lfsCacheBlk at h
  by_cases hc : b.cached = true
  · rw [if_pos hc] at h
    cases h
    exact .inl rfl
  rw [if_neg hc] at h
  by_cases hok : env.ok w.calls = false
  · rw [if_pos hok] at h
    cases h
    exact .inl rfl
  rw [if_neg hok] at h
  dsimp only at h
  generalize (if b.empty = true then (some (env.junk w.calls), w.next)
    else blockRead env (lfs.sector (lfs.segStart + b.blk)) lfs.secPerBlk (env.junk w.calls) w.next) = p at h
  obtain ⟨frame, w₁⟩ := p
  cases frame with
  | none =>
    cases h
    exact .inl rfl
  | some frame =>
    dsimp only at h
    by_cases hmap : env.ok w₁.calls = false
    · rw [if_pos hmap] at h
      cases h
      exact .inl rfl
    rw [if_neg hmap] at h
    by_cases hcrc : b.empty = false ∧ crcChecksum frame 0 lfsBlkSize ≠ b.crc
    · rw [if_pos hcrc] at h
      cases h
      exact .inl rfl
    · rw [if_neg hcrc] at h
      cases h
      exact .inr ⟨rfl, _, rfl⟩

theorem lfsCacheBlk_fields (h : lfsCacheBlk env lfs b w = (r, b', w')) :
    b'.off = b.off ∧ (b.FieldsSet → b'.FieldsSet) := by
  rcases lfsCacheBlk_cases h with rfl | ⟨-, a, rfl⟩
  · exact ⟨rfl, id⟩
  · exact ⟨rfl, fun _ => .inl rfl⟩

theorem writeLoop_fits (hfit : bOff + buf.length ≤ lfsBlkSize * bs.offs.length) (hb : bOff < lfsBlkSize)
    (h : writeLoop env lfs fuel bs off bOff buf w = some (r, bs', made, w')) :
    made = 0 ∧ bs'.ends = bs.ends ∧ bs'.offs = bs.offs ∧ (bs.All Blk.FieldsSet → bs'.All Blk.FieldsSet) := by
  induction fuel generalizing bs off bOff buf w bs' made with
  | zero =>
    cases buf with
    | nil =>
      rw [writeLoop_nil] at h
      cases h
      exact ⟨rfl, rfl, rfl, id⟩
    | cons v buf => cases h
  | succ fuel ih =>
    cases buf with
    | nil =>
      rw [writeLoop_nil] at h
      cases h
      exact ⟨rfl, rfl, rfl, id⟩
    | cons v buf =>
      cases bs with
      | nil =>
        cases h
        exact ⟨rfl, rfl, rfl, id⟩
      | wild => cases h
      | cons b bnext =>
        cases hcache : lfsCacheBlk env lfs b w with
        | mk r₁ p =>
          obtain ⟨b', w₁⟩ := p
          obtain ⟨hoff, hset⟩ := lfsCacheBlk_fields hcache
          by_cases hr : r₁ = OK
          · subst hr
            cases hcached : b'.cached with
            | false =>
              rw [writeLoop] at h
              simp only [hcache, hcached, ne_eq, not_true_eq_false, if_false, if_true] at h
              cases h
            | true =>
              generalize hn : (if bOff + (v :: buf).length > lfsBlkSize then lfsBlkSize - bOff else (v :: buf).length) = n
              rw [writeLoop_next hcache hcached hn.symm, nextBlk_fits hb hfit hn.symm] at h
              obtain ⟨hle, -, -, hfull⟩ := part_le hb hn.symm
              rw [Blks.size_cons] at hfit
              have hdrop : ((v :: buf).drop n).length = (v :: buf).length - n := List.length_drop ..
              obtain ⟨⟨r₂, bs₁, made₂, w₃⟩, hrec, he⟩ := Option.map_eq_some_iff.mp h
              cases he
              obtain ⟨hmade, hends, hoffs, hall⟩ := @ih w₁ bnext _ (off + n) 0 _ _ (by omega) (by decide) hrec
              refine ⟨by rw [hmade], hends, ?_, fun ha => ⟨.inl hcached, hall ha.2⟩⟩
              change b'.off :: bs₁.offs = b.off :: bnext.offs
              rw [hoff, hoffs]
          · rw [writeLoop] at h
            simp only [hcache, ne_eq, hr, not_false_eq_true, if_true] at h
            cases h
            refine ⟨rfl, rfl, ?_, fun ha => ⟨hset ha.1, ha.2⟩⟩
            change b'.off :: bnext.offs = b.off :: bnext.offs
            rw [hoff]

theorem seekBlk_refused (he : bs.ends = true) (hk : bs.offs.length ≤ k) (hno : env.ok w.calls = false) :
    ∃ front, seekBlk env true k bs w = some (false, front, .nil, 0, w.next) ∧ bs = Blks.nil.behind front := by
  induction k generalizing bs with
  | zero =>
    cases bs with
    | wild => cases he
    | cons b bnext => cases hk
    | nil =>
      refine ⟨[], ?_, rfl⟩
      simp only [seekBlk, hno, Bool.true_eq_false, if_false, if_true]
  | succ k ih =>
    cases bs with
    | wild => cases he
    | cons b bnext =>
      obtain ⟨front, hseek, hblks⟩ := @ih bnext he (Nat.le_of_succ_le_succ hk)
      refine ⟨b :: front, ?_, congrArg (Blks.cons b) hblks⟩
      rw [seekBlk, hseek]
      rfl
    | nil =>
      refine ⟨[], ?_, rfl⟩
      simp only [seekBlk, hno, Bool.true_eq_false, if_false, if_true]

theorem writeLoop_first (hb : buf ≠ []) (hfit : off + buf.length ≤ lfsBlkSize) (hrequest : env.ok w.calls = true)
    (hmap : env.ok w.next.calls = true) : ∃ b, b.off = 0 ∧ b.FieldsSet ∧
      writeLoop env lfs buf.length (.cons (lfsCreateBlk 0) .nil) off off buf w = some (OK, .cons b .nil, 0, w.next.next) := by
  obtain ⟨v, buf, rfl⟩ := List.exists_cons_of_ne_nil hb
  have hcache : lfsCacheBlk env lfs (lfsCreateBlk 0) w =
      (OK, { lfsCreateBlk 0 with cached := true, addr := (env.junk w.calls).fill 0 lfsBlkSize 0 }, w.next.next) := by
    simp only [lfsCacheBlk, lfsCreateBlk, hrequest, hmap, Bool.false_eq_true, Bool.true_eq_false, if_false, if_true,
      false_and]
  have hn : (v :: buf).length =
      if off + (v :: buf).length > lfsBlkSize then lfsBlkSize - off else (v :: buf).length := (if_neg (by omega)).symm
  have hdrop : (v :: buf).drop (v :: buf).length = [] := List.drop_length ..
  have hloop := @writeLoop_next env lfs w w.next.next (lfsCreateBlk 0) _ .nil off off _ buf.length buf v hcache rfl hn
  rw [hdrop] at hloop
  rw [nextBlk_there fun _ => rfl, writeLoop_nil] at hloop
  exact ⟨_, rfl, .inl rfl, hloop⟩

theorem ListsOk.setInode (h : ListsOk lfs) (hy : y.Sound) : ListsOk (lfs.setInode i y) := by
  rw [← relink_self (lfs.setInode i y)]
  exact h.set fun _ => hy

theorem ListsOk.written (h : ListsOk lfs) (hy : y.Sound)
    (hw : (lfsAddPending fuel (lfs.setInode i y) i).map (fun lfs => (OK, lfs, w)) = some (r, lfs', w')) :
    ListsOk lfs' := by
  obtain ⟨lfs₁, hpend, he⟩ := Option.map_eq_some_iff.mp hw
  cases he
  obtain ⟨p, f, rfl⟩ := lfsAddPending_relink hpend
  exact h.set fun _ => hy

theorem lfsWrite_lists (h : ListsOk lfs)
    (hfit : ∀ i, lfsFindInode lfs name false = some (some i) → WriteFits env w (lfs.inodes i) off buf.length)
    (hw : lfsWrite env fuel lfs name buf off w = some (r, lfs', w')) : ListsOk lfs' := by
  unfold lfsWrite at hw
  split at hw
  · cases hw
  · cases hw
    exact h
  · rename_i i hf
    obtain ⟨hi, hcreated⟩ := lfsFindInode_found hf
    have hx := h i hi hcreated
    have hcount := hx.length
    have hset := hx.set
    have hends := hx.ends
    have hoffs := hx.offs
    have hreal := hx.len
    simp only [lfsInodeGetBlk_eq, Bool.true_eq_false, false_and, if_false] at hw
    -- what is left to show once the new inode is known
    have hdone : ∀ (bs : Blks) (c l : ℕ), bs.ends = true → bs.offs = (List.range c).map (lfsBlkSize * ·) →
        bs.All Blk.FieldsSet → l ≤ lfsBlkSize * c →
        ({ lfs.inodes i with blks := bs, blkCnt := c, lenReal := l } : Inode).Sound :=
      fun bs c l h1 h2 h3 h4 => ⟨⟨h1, h2⟩, h3, h4⟩
    rcases hfit i hf with ⟨hfirst, hlast⟩ | ⟨hpast, hno⟩ | ⟨hnone, hpos, hlast, hrequest, hmap⟩
    · obtain ⟨front, rest, hseek, hblks, hfront⟩ := seekBlk_found env w true (hcount.symm ▸ hfirst)
      rw [hseek] at hw
      simp only [Bool.true_eq_false, if_false, Nat.add_zero] at hw
      have halign : alignDown off lfsBlkSize = lfsBlkSize * front.length := by rw [hfront, align_eq]
      have hdown := align_le off
      rw [hblks] at hcount hset hends hoffs
      rw [Blks.offs_behind] at hoffs
      rw [Blks.length_behind] at hcount
      rw [Blks.ends_behind] at hends
      have hsize : lfsBlkSize * (lfs.inodes i).blkCnt = lfsBlkSize * front.length + lfsBlkSize * rest.offs.length := by
        rw [← hcount, Nat.mul_add]
      split at hw
      · cases hw
      · rename_i r₁ rest' made' w₁ hloop
        obtain ⟨rfl, hends', hoffs', hset'⟩ := writeLoop_fits (by omega) (align_lt off) hloop
        have hsound : ∀ l, l ≤ lfsBlkSize * (lfs.inodes i).blkCnt → ({ lfs.inodes i with
            blks := rest'.behind front, blkCnt := (lfs.inodes i).blkCnt, lenReal := l } : Inode).Sound := by
          intro l hl
          apply hdone _ _ _ _ _ _ hl
          · rw [Blks.ends_behind, hends', hends]
          · rw [Blks.offs_behind, hoffs', hoffs]
          · obtain ⟨h1, h2⟩ := Blks.all_behind.mp hset
            exact Blks.all_behind.mpr ⟨h1, hset' h2⟩
        simp only [Nat.add_zero] at hw
        by_cases hr : r₁ = OK
        · simp only [hr, ne_eq, not_true_eq_false, if_false] at hw
          apply h.written _ hw
          split_ifs
          · exact hsound _ hlast
          · exact hsound _ hreal
        · simp only [ne_eq, hr, not_false_eq_true, if_true] at hw
          cases hw
          exact h.setInode (hsound _ hreal)
    · obtain ⟨front, hseek, hblks⟩ := seekBlk_refused hends (hcount.symm ▸ hpast) hno
      rw [hseek] at hw
      simp only [if_true, Nat.add_zero] at hw
      cases hw
      apply h.setInode
      apply hdone _ _ _ _ _ _ hreal
      · rw [← hblks, hends]
      · rw [← hblks, hoffs]
      · rw [← hblks]
        exact hset
    · have hk : off / lfsBlkSize = 0 := Nat.div_eq_of_lt (by omega)
      have hdown : alignDown off lfsBlkSize = 0 := by
        rw [align_eq, hk, Nat.mul_zero]
      have hnil : (lfs.inodes i).blks = .nil := by
        rw [hnone] at hcount
        cases hb : (lfs.inodes i).blks with
        | nil => rfl
        | wild =>
          rw [hb] at hends
          cases hends
        | cons b bnext =>
          rw [hb] at hcount
          cases hcount
      rw [hnone, Nat.mul_zero] at hreal
      rw [hk, hnil, hdown, Nat.sub_zero, hnone] at hw
      by_cases hmalloc : env.ok w.calls = false
      · simp only [seekBlk, hmalloc, Bool.true_eq_false, if_false, if_true, Nat.add_zero] at hw
        cases hw
        exact h.setInode (hdone .nil 0 _ rfl rfl trivial hreal)
      · simp only [seekBlk, hmalloc, Bool.true_eq_false, if_false] at hw
        obtain ⟨b, hoff, hbset, hloop⟩ := @writeLoop_first env lfs w.next off buf
          (List.length_pos_iff.mp hpos) hlast hrequest hmap
        rw [hloop] at hw
        simp only [ne_eq, not_true_eq_false, if_false, Nat.add_zero, Nat.zero_add] at hw
        have hone : (Blks.cons b .nil).offs = (List.range 1).map (lfsBlkSize * ·) := by
          change [b.off] = _
          rw [hoff]
          rfl
        apply h.written _ hw
        split_ifs
        · exact hdone (.cons b .nil) 1 _ rfl hone ⟨hbset, trivial⟩ hlast
        · exact hdone (.cons b .nil) 1 _ rfl hone ⟨hbset, trivial⟩ (hreal.trans (Nat.zero_le _))

end Steps

section Runs

theorem FileCall.run_lists {c : FileCall} (h : ListsOk lfs) (hfit : c.Fits env lfs w)
    (hc : c.run env fuel lfs w = some (r, lfs', w')) : ListsOk lfs' := by
  cases c with
  | write name buf off => exact lfsWrite_lists h hfit hc
  | create name =>
    obtain ⟨⟨r₁, lfs₁⟩, hcall, he⟩ := Option.map_eq_some_iff.mp hc
    cases he
    exact lfsCreate_lists h hcall
  | trunc name len =>
    obtain ⟨⟨r₁, lfs₁⟩, hcall, he⟩ := Option.map_eq_some_iff.mp hc
    cases he
    exact lfsTrunc_lists h hcall
  | rm name =>
    obtain ⟨⟨r₁, lfs₁⟩, hcall, he⟩ := Option.map_eq_some_iff.mp hc
    cases he
    exact lfsRm_lists h hcall

theorem FileRun.lists {s t : Lfs × World} (h : ListsOk s.1) (hrun : FileRun env fuel s t) : ListsOk t.1 := by
  induction hrun with
  | start => exact h
  | call c _ hfit hc ih => exact FileCall.run_lists ih hfit hc

theorem lfsFormat_lists (h : lfsFormat env fuel lfs w = some (OK, lfs', w')) : ListsOk lfs' := by
  obtain ⟨w₁, w₂, -, -, hwrite⟩ := formatLaidOut_ok (lfsFormat_ok h)
  have hmount : ∀ l : Lfs, ∀ i < l.mount.nInodes, (l.mount.inodes i).created = true → (l.mount.inodes i).Sound := by
    intro l i hi hc
    rw [mount_nInodes] at hi
    rw [mount_inodes hi] at hc
    cases hc
  rcases lfsWriteCheckpoint_ok hwrite with ⟨hr, -, -⟩ | ⟨c, -, -, ⟨-, rfl⟩ | ⟨hr, -⟩⟩
  · cases hr
  · intro i hi hc
    rw [tick_nInodes] at hi
    rw [tick_inodes] at hc ⊢
    exact hmount _ i hi hc
  · cases hr

/-- From a new file system, or any whose lists are in order, all calls keep them so as long as no write makes another
block than the first of a file. -/
theorem blockLists_run (env : Env) (fuel : ℕ) :
    (∀ lfs w lfs' w', lfsFormat env fuel lfs w = some (OK, lfs', w') → ListsOk lfs') ∧
    ∀ s t, ListsOk s.1 → FileRun env fuel s t → ListsOk t.1 :=
  ⟨fun _ _ _ _ => lfsFormat_lists, fun _ _ => FileRun.lists⟩

theorem blockLists_run_first : ∃ start w made s,
    lfsFormat calmEnv 3 blankLfs blankWorld = some (OK, start, w) ∧
    lfsCreate 3 (fun _ => 0) start = some (OK, made) ∧
    lfsWrite calmEnv 3 made (fun _ => 0) [7] 200 w = some (OK, s) ∧ ListsOk s.1 := by
  have heval : ((lfsFormat calmEnv 3 blankLfs blankWorld).bind fun a => (lfsCreate 3 (fun _ => 0) a.2.1).bind fun c =>
      (lfsWrite calmEnv 3 c.2 (fun _ => 0) [7] 200 a.2.2).map fun d =>
        (a.1, c.1, d.1, (lfsFindInode c.2 (fun _ => 0) false).join, (c.2.inodes 0).blkCnt)) =
      some (OK, OK, OK, some 0, 0) := by
    decide +kernel
  obtain ⟨⟨r₁, start, w⟩, hformat, heval⟩ := Option.bind_eq_some_iff.mp heval
  obtain ⟨⟨r₂, made⟩, hcreate, heval⟩ := Option.bind_eq_some_iff.mp heval
  obtain ⟨⟨r₃, s⟩, hwrite, heval⟩ := Option.map_eq_some_iff.mp heval
  simp only [Prod.mk.injEq] at heval
  obtain ⟨rfl, rfl, rfl, hfind, hcnt⟩ := heval
  have hfits : (FileCall.write (fun _ => 0) [7] 200).Fits calmEnv made w := by
    intro i hi
    rw [hi] at hfind
    cases hfind
    exact .first hcnt (by decide) (by decide) rfl rfl
  have hrun : FileRun calmEnv 3 (start, w) s := .call (.write (fun _ => 0) [7] 200)
    (.call (r := OK) (.create fun _ => 0) .start trivial (congrArg (Option.map _) hcreate)) hfits hwrite
  exact ⟨start, w, made, s, hformat, hcreate, hwrite,
    (blockLists_run calmEnv 3).2 _ _ ((blockLists_run calmEnv 3).1 _ _ _ _ hformat) hrun⟩

theorem blockLists_gap : ∃ start w made s,
    lfsFormat calmEnv 3 blankLfs blankWorld = some (OK, start, w) ∧
    lfsCreate 3 (fun _ => 0) start = some (OK, made) ∧
    lfsWrite calmEnv 3 made (fun _ => 0) [7] 4096 w = some (OK, s) ∧ ¬ ListsOk s.1 := by
  have heval : ((lfsFormat calmEnv 3 blankLfs blankWorld).bind fun a => (lfsCreate 3 (fun _ => 0) a.2.1).bind fun c =>
      (lfsWrite calmEnv 3 c.2 (fun _ => 0) [7] 4096 a.2.2).map fun d =>
        decide ((a.1 = OK ∧ c.1 = OK ∧ d.1 = OK) ∧ (0 < d.2.1.nInodes ∧ (d.2.1.inodes 0).created) ∧
          (d.2.1.inodes 0).blkCnt = 2 ∧ (d.2.1.inodes 0).blks.offs = [4096, 0])) = some true := by
    decide +kernel
  obtain ⟨⟨r₁, start, w⟩, hformat, heval⟩ := Option.bind_eq_some_iff.mp heval
  obtain ⟨⟨r₂, made⟩, hcreate, heval⟩ := Option.bind_eq_some_iff.mp heval
  obtain ⟨⟨r₃, s⟩, hwrite, heval⟩ := Option.map_eq_some_iff.mp heval
  obtain ⟨⟨rfl, rfl, rfl⟩, ⟨hn, hc⟩, hcnt, hoffs⟩ := of_decide_eq_true heval
  refine ⟨start, w, made, s, hformat, hcreate, hwrite, fun h => ?_⟩
  have hrange := (h 0 hn hc).offs
  rw [hoffs, hcnt] at hrange
  exact absurd hrange (by decide)

end Runs

end Agatha.Fs
