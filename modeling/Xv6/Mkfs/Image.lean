import Mathlib.Data.List.TakeWhile
import Xv6.Mkfs.Read

/-!
The images that `mkfs` builds.
-/

namespace Xv6.Mkfs

open Lib.Bytes Lib.Wp Fs Function List

variable {D : ℕ → List UInt8} {s : Mk}

/-! ### The inode counter -/

/-- The computation takes `n` inodes. -/
def Counts {α : Type} (n : ℕ) (x : MkM α) : Prop :=
  ∀ s, wp x (fun _ s' => s'.freeinode = s.freeinode + n) (fun _ _ => True) s

lemma Counts.bind {α β : Type} {m n : ℕ} {x : MkM α} {f : α → MkM β} (hx : Counts m x)
    (hf : ∀ a, Counts n (f a)) : Counts (m + n) (x >>= f) := fun s => by
  rw [wp_bind]
  refine wp_mono (hx s) (fun a s' h => wp_mono (hf a s') (fun _ s'' h' => ?_) fun _ _ h => h)
    fun _ _ h => h
  rw [h', h, Nat.add_assoc]

lemma counts_pure {α : Type} (a : α) : Counts 0 (pure a : MkM α) := fun _ => rfl

lemma counts_rsect (sec : ℕ) : Counts 0 (rsect sec) := fun s => by
  rw [wp_rsect]
  exact ⟨fun _ => trivial, fun _ => rfl⟩

lemma counts_wsect (sec : ℕ) (b : Block) : Counts 0 (wsect sec b) := fun _ => rfl

lemma counts_newBlock : Counts 0 newBlock := fun _ => rfl

lemma counts_throwIf {c : Prop} [Decidable c] (e : Fail) : Counts 0 (throwIf c e) := fun s => by
  rw [wp_throwIf]
  exact ⟨fun _ => trivial, fun _ => rfl⟩

lemma counts_winode (i : ℕ) (d : Dinode) : Counts 0 (winode i d) :=
  (counts_rsect _).bind fun _ => counts_wsect _ _

lemma counts_rinode (i : ℕ) : Counts 0 (rinode i) := (counts_rsect _).bind fun _ => counts_pure _

lemma counts_appendBlock (din : Dinode) (fbn : ℕ) : Counts 0 (appendBlock din fbn) := by
  unfold appendBlock
  split
  · split
    · exact counts_newBlock.bind fun _ => counts_pure _
    · exact counts_pure _
  · extract_lets entry
    have hentry : ∀ din, Counts 0 (entry din) := by
      intro din
      refine Counts.bind (m := 0) (n := 0) (counts_rsect _) fun indirect => ?_
      split
      · exact counts_newBlock.bind fun _ => (counts_wsect _ _).bind fun _ => counts_pure _
      · exact counts_pure _
    split
    · exact counts_newBlock.bind fun _ => (counts_pure _).bind hentry
    · exact (counts_pure _).bind hentry

lemma counts_appendLoop (k : ℕ) (din : Dinode) (off : ℕ) (p : List UInt8) :
    Counts 0 (appendLoop k din off p) := by
  induction k generalizing din off p with
  | zero => exact counts_pure _
  | succ k ih =>
    unfold appendLoop
    split
    · exact counts_pure _
    · exact (counts_throwIf _).bind fun _ => (counts_appendBlock _ _).bind fun r =>
        (counts_rsect _).bind fun _ => (counts_wsect _ _).bind fun _ => ih _ _ _

lemma counts_iappend (i : ℕ) (p : List UInt8) : Counts 0 (iappend i p) :=
  (counts_rinode i).bind fun _ => (counts_appendLoop _ _ _ _).bind fun _ => counts_winode _ _

lemma counts_appendAll (calls : List (ℕ × List UInt8)) : Counts 0 (appendAll calls) := by
  induction calls with
  | nil => exact counts_pure _
  | cons c calls ih => exact (counts_iappend _ _).bind fun _ => ih

lemma counts_ialloc (type : ℕ) : Counts 1 (ialloc type) := fun s => by
  unfold ialloc
  simp only [wp_bind, wp_get, wp_set]
  exact wp_mono (counts_winode _ _ _) (fun _ _ h => h) fun _ _ h => h

/-! ### The appends of the program -/

/-- The name that a file gets. -/
def nameOf (f : Input) : List UInt8 := skipUnderscore (stripUser f.arg)

/-- The appends for a file with inode `m`. -/
def fileCalls (m : ℕ) (f : Input) : List (ℕ × List UInt8) :=
  (ROOTINO, dirent m (nameOf f)) :: f.reads.map fun p => (m, p)

def filesCalls : ℕ → List Input → List (ℕ × List UInt8)
  | _, [] => []
  | m, f :: fs => fileCalls m f ++ filesCalls (m + 1) fs

def rootCalls : List (ℕ × List UInt8) :=
  [(ROOTINO, dirent ROOTINO dot), (ROOTINO, dirent ROOTINO dotdot)]

/-- All appends. The first file gets the inode after the root. -/
def mainCalls (files : List Input) : List (ℕ × List UInt8) := rootCalls ++ filesCalls 2 files

lemma iappends_eq (i : ℕ) (ps : List (List UInt8)) :
    iappends i ps = appendAll (ps.map fun p => (i, p)) := by
  induction ps with
  | nil => rfl
  | cons p ps ih =>
    unfold iappends
    rw [ih]
    rfl

lemma addFile_eq (f : Input) : addFile f = (do
    throwIf (47 ∈ stripUser f.arg) .abort
    throwIf (f.opens = false) .exit
    let inum ← ialloc T_FILE
    appendAll (fileCalls inum f)) := by
  unfold addFile
  simp only [iappends_eq]
  rfl

lemma counts_addFile (f : Input) : Counts 1 (addFile f) := by
  rw [addFile_eq]
  exact (counts_throwIf _).bind fun _ => (counts_throwIf _).bind fun _ =>
    (counts_ialloc _).bind fun _ => counts_appendAll _

lemma counts_addFiles (fs : List Input) : Counts fs.length (addFiles fs) := by
  induction fs with
  | nil => exact counts_pure _
  | cons f fs ih =>
    rw [length_cons, Nat.add_comm]
    exact (counts_addFile f).bind fun _ => ih

lemma appended_append (c c' : List (ℕ × List UInt8)) (i : ℕ) :
    appended (c ++ c') i = appended c i ++ appended c' i := by
  unfold appended
  rw [filter_append, flatMap_append]

lemma appended_eq_nil {c : List (ℕ × List UInt8)} {i : ℕ} (h : ∀ x ∈ c, x.1 ≠ i) :
    appended c i = [] := by
  unfold appended
  rw [filter_eq_nil_iff.mpr fun x hx => by simpa using h x hx]
  rfl

lemma mem_fileCalls {m : ℕ} {f : Input} {c : ℕ × List UInt8} (h : c ∈ fileCalls m f) :
    c.1 = ROOTINO ∨ c.1 = m := by
  rcases mem_cons.mp h with rfl | h
  · exact .inl rfl
  · obtain ⟨p, -, rfl⟩ := mem_map.mp h
    exact .inr rfl

/-- Why a file is not taken: a slash in its name, or it does not open. -/
def Refused (f : Input) (e : Fail) : Prop :=
  (e = .abort ∧ 47 ∈ stripUser f.arg) ∨ (e = .exit ∧ f.opens = false)

lemma Overflows.mono {C C' : ℕ → List UInt8} {e : Fail} (h : Overflows C e)
    (hle : ∀ i, (C i).length ≤ (C' i).length) : Overflows C' e := by
  rcases h with ⟨rfl, i, hi, hlt⟩ | ⟨rfl, hlt⟩
  · exact .inl ⟨rfl, i, hi, lt_of_lt_of_le hlt (hle i)⟩
  · exact .inr ⟨rfl, lt_of_lt_of_le hlt (total_mono fun i => blocks_mono (hle i))⟩

lemma wp_addFile {f : Input} (h : Holds D s) (hr : ROOTINO < s.freeinode) (hi : s.freeinode < NI)
    (hD : D s.freeinode = []) :
    wp (addFile f) (fun _ s' => Holds (fun i => D i ++ appended (fileCalls s.freeinode f) i) s' ∧
        s'.freeinode = s.freeinode + 1)
      (fun e _ => Refused f e ∨ Overflows (fun i => D i ++ appended (fileCalls s.freeinode f) i) e)
      s := by
  rw [addFile_eq]
  simp only [wp_bind, wp_throwIf]
  refine ⟨fun hs => .inl (.inl ⟨rfl, hs⟩), fun _ => ⟨fun ho => .inl (.inr ⟨rfl, ho⟩), fun _ => ?_⟩⟩
  refine wp_mono (wp_ialloc h hi hD (by decide) _) ?_ fun _ _ he => he
  rintro i s' ⟨h', rfl, hfi⟩
  have hc : ∀ c ∈ fileCalls s.freeinode f, c.1 < NI := fun c hmem => by
    rcases mem_fileCalls hmem with he | he <;> omega
  refine wp_mono (wp_and (wp_appendAll h' hc) (counts_appendAll _ s')) ?_ ?_
  · rintro - s'' ⟨h'', hk⟩
    exact ⟨h'', hk.trans hfi⟩
  · rintro e _ ⟨ho, -⟩
    exact .inr ho

lemma wp_addFiles (fs : List Input) (h : Holds D s) (hr : ROOTINO < s.freeinode)
    (hn : s.freeinode + fs.length ≤ NI) (hD : ∀ i, s.freeinode ≤ i → D i = []) :
    wp (addFiles fs)
      (fun _ s' => Holds (fun i => D i ++ appended (filesCalls s.freeinode fs) i) s')
      (fun e _ => (∃ f ∈ fs, Refused f e) ∨
        Overflows (fun i => D i ++ appended (filesCalls s.freeinode fs) i) e) s := by
  induction fs generalizing s D with
  | nil =>
    show Holds (fun i => D i ++ appended [] i) s
    simpa [appended] using h
  | cons f fs ih =>
    rw [length_cons] at hn
    have hsplit : ∀ i, D i ++ appended (filesCalls s.freeinode (f :: fs)) i =
        (D i ++ appended (fileCalls s.freeinode f) i) ++
          appended (filesCalls (s.freeinode + 1) fs) i := fun i => by
      rw [append_assoc, ← appended_append]
      rfl
    unfold addFiles
    simp only [wp_bind, hsplit]
    refine wp_mono (wp_addFile h hr (by omega) (hD _ le_rfl)) ?_ ?_
    · rintro - s' ⟨h', hfi⟩
      have := ih h' (by omega) (by omega) fun i hi => ?_
      · rw [hfi] at this
        refine wp_mono this (fun _ _ h => h) ?_
        rintro e _ (⟨g, hg, he⟩ | ho)
        · exact .inl ⟨g, mem_cons_of_mem _ hg, he⟩
        · exact .inr ho
      · rw [hD i (by omega), nil_append]
        refine appended_eq_nil fun c hc => ?_
        rcases mem_fileCalls hc with he | he <;> omega
    · rintro e _ (he | ho)
      · exact .inl ⟨f, mem_cons_self, he⟩
      · refine .inr (ho.mono fun i => ?_)
        exact (sublist_append_left _ _).length_le

/-! ### The finished image -/

/-- The image of `main`: the files have the contents `D`, and the size of the root directory is
rounded. -/
structure Finished (D : ℕ → List UInt8) (s : Mk) : Prop where
  built : Built (blocksOf D) D (dinode sb s.img) s.img s.freeblock
  size : ∀ i < NI, i ≠ ROOTINO → (dinode sb s.img i).size = (D i).length
  root : (dinode sb s.img ROOTINO).size = ((D ROOTINO).length / BSIZE + 1) * BSIZE
  bitmap : s.img sb.bmapstart = bitmap s.freeblock
  fb : s.freeblock ≤ FSSIZE

lemma dinode_update_bitmap (img : ℕ → Block) (b : Block) {i : ℕ} (hi : i < NI) :
    dinode sb (update img sb.bmapstart b) i = dinode sb img i := by
  have hb : sb.iblock i < sb.bmapstart := inArea_iff.mpr hi
  unfold dinode
  rw [update_of_ne (by omega)]

/-- The inode that `fixRoot` writes. -/
def roundSize (d : Dinode) : Dinode := { d with size := (d.size / BSIZE + 1) * BSIZE }

lemma fits_roundSize {d : Dinode} (h : d.Fits) (hn : d.size ≤ MAXFILE * BSIZE) :
    (roundSize d).Fits := by
  refine ⟨h.type, h.major, h.minor, h.nlink, ?_, h.addrs, h.few⟩
  have hmax : MAXFILE * BSIZE = 274432 := by decide
  show (d.size / 1024 + 1) * 1024 < 2 ^ 32
  omega

/-- The image after the root directory is fixed. -/
def fixed (s : Mk) : Mk := putInode s ROOTINO (roundSize (dinode sb s.img ROOTINO))

/-- The image after the bitmap is written. -/
def finish (s : Mk) : Mk :=
  { s with img := update (fixed s).img sb.bmapstart (bitmap s.freeblock) }

lemma dinode_finish (h : Holds D s) {j : ℕ} (hj : j < NI) : dinode sb (finish s).img j =
    update (dinode sb s.img) ROOTINO (roundSize (dinode sb s.img ROOTINO)) j := by
  have hroot : ROOTINO < NI := by decide
  have hfits := fits_roundSize (h.built.fits _ hroot) ((h.size _ hroot).le.trans (h.room.1 _ hroot))
  unfold finish
  rw [dinode_update_bitmap _ _ hj]
  exact congrFun (dinode_putDinode sb s.img hfits) j

lemma finished_finish (h : Holds D s) : Finished D (finish s) := by
  have hl := layout
  have hroot : ROOTINO < NI := by decide
  have hfits := fits_roundSize (h.built.fits _ hroot) ((h.size _ hroot).le.trans (h.room.1 _ hroot))
  constructor
  case built =>
    refine h.built.congr (fun j hj => ?_) fun b hb => ?_
    · rw [dinode_finish h hj]
      rcases eq_or_ne j ROOTINO with rfl | hne
      · rw [update_self]
        exact ⟨rfl, hfits⟩
      · rw [update_of_ne hne]
        exact ⟨rfl, h.built.fits j hj⟩
    · have := iblock_lt hroot
      unfold finish fixed putInode
      dsimp only
      rw [update_of_ne (by omega), update_of_ne (by omega)]
  case size =>
    intro j hj hne
    rw [dinode_finish h hj, update_of_ne hne, h.size j hj]
  case root =>
    rw [dinode_finish h hroot, update_self, ← h.size _ hroot]
    rfl
  case bitmap => exact update_self sb.bmapstart (bitmap s.freeblock) (fixed s).img
  case fb => exact h.fb

lemma wp_finish (h : Holds D s) :
    wp (do fixRoot; let s ← get; balloc s.freeblock) (fun _ s' => Finished D s')
      (fun _ _ => False) s := by
  have hl := layout
  have hsz := sizes
  have hroot : ROOTINO < NI := by decide
  have hfb := h.fb
  have hlen := h.len
  unfold fixRoot balloc
  simp only [wp_bind]
  refine wp_rinode hroot hlen _ _ (wp_winode hroot hlen _ _ _ ?_)
  simp only [wp_get, wp_throwIf, wp_wsect, seek_eq (show sb.bmapstart < 2 ^ 22 by omega)]
  refine ⟨fun (hle : BSIZE * 8 ≤ s.freeblock) => absurd hle (by omega), fun _ => ?_⟩
  have hfin : finish s = { finish s with len := max s.len (sb.bmapstart + 1) } := by
    rw [max_eq_left (by omega)]
    rfl
  have := finished_finish h
  rw [hfin] at this
  exact this

lemma appended_mainCalls (files : List Input) (i : ℕ) :
    appended (mainCalls files) i = appended rootCalls i ++ appended (filesCalls 2 files) i :=
  appended_append _ _ _

lemma appendAll_rootCalls : appendAll rootCalls = (do
    iappend ROOTINO (dirent ROOTINO dot)
    iappend ROOTINO (dirent ROOTINO dotdot)) := by
  simp only [rootCalls, appendAll, bind_pure_unit]

lemma wp_makeRoot (h : Holds (fun _ => []) s) (hfi : s.freeinode = ROOTINO) :
    wp makeRoot (fun _ s' => Holds (appended rootCalls) s' ∧ s'.freeinode = 2)
      (fun _ _ => False) s := by
  have hroom : Room (appended rootCalls) := ⟨by decide +kernel, by decide +kernel⟩
  unfold makeRoot
  rw [wp_bind]
  refine wp_mono (wp_ialloc h (by rw [hfi]; decide) rfl (by decide) _) ?_ fun _ _ he => he
  rintro i s' ⟨h', rfl, hfi'⟩
  rw [wp_bind, wp_throwIf, hfi]
  refine ⟨fun hne => absurd rfl hne, fun _ => ?_⟩
  rw [← appendAll_rootCalls]
  refine wp_mono (wp_and (wp_appendAll h' (by decide)) (counts_appendAll rootCalls s')) ?_ ?_
  · rintro - s'' ⟨h'', hk⟩
    exact ⟨h'', by rw [hk, hfi', hfi]⟩
  · rintro e - ⟨ho, -⟩
    exact hroom.not_overflows e ho

/-- **What mkfs builds.** With at most 206 files, the program fails only on a file it refuses or on
a lack of room, and the image has what was appended. -/
theorem wp_main (files : List Input) (hn : files.length ≤ 206) :
    wp (main files) (fun _ s => Finished (appended (mainCalls files)) s)
      (fun e _ => (∃ f ∈ files, Refused f e) ∨ Overflows (appended (mainCalls files)) e) start := by
  have hD : appended (mainCalls files) =
      fun i => appended rootCalls i ++ appended (filesCalls 2 files) i :=
    funext (appended_mainCalls files)
  unfold main
  rw [wp_bind]
  refine wp_mono wp_format ?_ fun _ _ he => he.elim
  rintro - s ⟨h, hfi⟩
  rw [wp_bind]
  refine wp_mono (wp_makeRoot h hfi) ?_ fun _ _ he => he.elim
  rintro - s' ⟨h', hfi'⟩
  rw [wp_bind, hD]
  have hempty : ∀ i, 2 ≤ i → appended rootCalls i = [] := fun i hi =>
    appended_eq_nil fun c hc he => by
      have hr : c.1 = ROOTINO := by rcases mem_pair.mp hc with rfl | rfl <;> rfl
      rw [← he, hr] at hi
      exact absurd hi (by decide)
  have := wp_addFiles files h' (by rw [hfi']; decide) (by rw [hfi', show NI = 208 from rfl]; omega)
    (hfi' ▸ hempty)
  rw [hfi'] at this
  refine wp_mono this ?_ fun _ _ he => he
  rintro - s'' h''
  exact wp_mono (wp_finish h'') (fun _ _ h => h) fun _ _ he => he.elim

/-! ### The kernel's invariants -/

/-- The bytes of inode `i` of the image. -/
def contents (img : ℕ → Block) (i x : ℕ) : UInt8 :=
  byte (img (bmapAddr img (dinode sb img i) (x / BSIZE))) (x % BSIZE)

/-- Entry `a` of the root directory. -/
def rootEntry (img : ℕ → Block) (a : ℕ) : List UInt8 := entry (contents img ROOTINO) (a * DESIZE)

/-- What the kernel takes for granted about an image. -/
structure WellFormed (s : Mk) : Prop where
  range : ∀ i, InArea i → ∀ k < NSLOT, slotAddr s.img (dinode sb s.img i) k ≠ 0 →
    nmeta ≤ slotAddr s.img (dinode sb s.img i) k ∧ slotAddr s.img (dinode sb s.img i) k < sb.size
  once : ∀ i j, InArea i → InArea j → ∀ k < NSLOT, ∀ l < NSLOT,
    slotAddr s.img (dinode sb s.img i) k ≠ 0 →
    slotAddr s.img (dinode sb s.img i) k = slotAddr s.img (dinode sb s.img j) l → i = j ∧ k = l
  bitmap : ∀ b < BPB, used sb s.img b = decide (b < s.freeblock)
  inodes : ∀ i, 0 < i → i < s.freeinode → i < sb.ninodes
  filled : ∀ i, InArea i → ∀ bn < blocks (dinode sb s.img i).size,
    bmapAddr s.img (dinode sb s.img i) bn ≠ 0
  names : ∀ a b, a * DESIZE < (dinode sb s.img ROOTINO).size →
    b * DESIZE < (dinode sb s.img ROOTINO).size → deInum (rootEntry s.img a) ≠ 0 →
    deInum (rootEntry s.img b) ≠ 0 →
    namecmp (deName (rootEntry s.img a)) (deName (rootEntry s.img b)) = true → a = b

lemma bit_bitmap {n : ℕ} (hn : n ≤ BPB) (b : ℕ) : bit (bitmap n) b = decide (b < n) := by
  induction n with
  | zero => simp [bitmap, bit]
  | succ n ih =>
    unfold bitmap
    rw [bit_setBit _ (by omega), ih (by omega)]
    split
    · next he => rw [he, decide_eq_true (Nat.lt_succ_self n)]
    · next hne => exact decide_eq_decide.mpr (by omega)

/-- The entries that `main` appends to the root directory for files. -/
def fileEntries : ℕ → List Input → List (ℕ × List UInt8)
  | _, [] => []
  | m, f :: fs => (m, nameOf f) :: fileEntries (m + 1) fs

def rootEntries (files : List Input) : List (ℕ × List UInt8) :=
  (ROOTINO, dot) :: (ROOTINO, dotdot) :: fileEntries 2 files

/-- The names in the root directory, as the kernel compares them. -/
def rootNames (files : List Input) : List (List UInt8) :=
  cname dot :: cname dotdot :: files.map fun f => cname (nameOf f)

lemma rootEntries_length (files : List Input) : (rootEntries files).length = files.length + 2 := by
  have h : ∀ m, (fileEntries m files).length = files.length := by
    induction files with
    | nil => exact fun _ => rfl
    | cons f fs ih => exact fun m => congrArg (· + 1) (ih (m + 1))
  exact congrArg (· + 2) (h 2)

lemma rootEntries_names (files : List Input) :
    (rootEntries files).map (fun e => cname e.2) = rootNames files := by
  have h : ∀ m, (fileEntries m files).map (fun e => cname e.2) =
      files.map fun f => cname (nameOf f) := by
    induction files with
    | nil => exact fun _ => rfl
    | cons f fs ih => exact fun m => congrArg (cname (nameOf f) :: ·) (ih (m + 1))
  exact congrArg (fun l => cname dot :: cname dotdot :: l) (h 2)

lemma rootEntries_inum {files : List Input} {e : ℕ × List UInt8} (he : e ∈ rootEntries files) :
    0 < e.1 ∧ e.1 < files.length + 2 := by
  have h : ∀ m, ∀ e ∈ fileEntries m files, m ≤ e.1 ∧ e.1 < files.length + m := by
    clear he
    induction files with
    | nil => exact fun _ _ he => absurd he not_mem_nil
    | cons f fs ih =>
      intro m e he
      rw [length_cons]
      rcases mem_cons.mp he with rfl | he
      · exact ⟨le_rfl, by omega⟩
      · have := ih (m + 1) e he
        omega
  have hr : ROOTINO = 1 := rfl
  rcases mem_cons.mp he with rfl | he
  · exact ⟨by decide, by dsimp only; omega⟩
  rcases mem_cons.mp he with rfl | he
  · exact ⟨by decide, by dsimp only; omega⟩
  have := h 2 e he
  omega

lemma appended_root (files : List Input) : appended (mainCalls files) ROOTINO =
    (rootEntries files).flatMap fun e => dirent e.1 e.2 := by
  have h : ∀ m, ROOTINO < m → appended (filesCalls m files) ROOTINO =
      (fileEntries m files).flatMap fun e => dirent e.1 e.2 := by
    induction files with
    | nil => exact fun _ _ => rfl
    | cons f fs ih =>
      intro m hm
      unfold filesCalls fileEntries
      rw [appended_append, ih (m + 1) (by omega), flatMap_cons]
      congr 1
      have hreads : appended (f.reads.map fun p => (m, p)) ROOTINO = [] :=
        appended_eq_nil fun c hc => by
          obtain ⟨p, -, rfl⟩ := mem_map.mp hc
          exact hm.ne'
      have := appended_cons ROOTINO (dirent m (nameOf f)) (f.reads.map fun p => (m, p))
        (fun _ => []) ROOTINO
      rw [hreads, append_nil, nil_append] at this
      exact this.symm.trans (by unfold grow; rw [update_self]; rfl)
  rw [appended_mainCalls, h 2 (by decide)]
  rfl

lemma length_flatMap_dirent (es : List (ℕ × List UInt8)) :
    (es.flatMap fun e => dirent e.1 e.2).length = es.length * DESIZE := by
  induction es with
  | nil => rfl
  | cons e es ih =>
    rw [flatMap_cons, length_append, ih, dirent_length, length_cons, Nat.succ_mul,
      Nat.add_comm]

lemma getD_flatMap_dirent (es : List (ℕ × List UInt8)) {a k : ℕ} (ha : a < es.length)
    (hk : k < DESIZE) : (es.flatMap fun e => dirent e.1 e.2).getD (a * DESIZE + k) 0 =
      (dirent es[a].1 es[a].2).getD k 0 := by
  induction es generalizing a with
  | nil => exact absurd ha (Nat.not_lt_zero a)
  | cons e es ih =>
    have hlen := dirent_length e.1 e.2
    rw [flatMap_cons]
    cases a with
    | zero =>
      rw [getD_append _ _ _ _ (by omega), Nat.zero_mul, Nat.zero_add]
      rfl
    | succ a =>
      rw [getD_append_right _ _ _ _ (by rw [hlen, Nat.succ_mul]; omega), hlen,
        show (a + 1) * DESIZE + k - DESIZE = a * DESIZE + k by rw [Nat.succ_mul]; omega]
      exact ih (Nat.lt_of_succ_lt_succ ha)

lemma entry_eq {c : ℕ → UInt8} {off : ℕ} {de : List UInt8} (hlen : de.length = DESIZE)
    (h : ∀ k < DESIZE, c (off + k) = de.getD k 0) : entry c off = de := by
  unfold entry
  refine ext_getElem (by rw [length_map, length_range, hlen]) fun k h1 h2 => ?_
  rw [getElem_map, getElem_range, h k (by omega), getD_eq_getElem _ _ h2]

lemma takeWhile_fill {l : List UInt8} {n : ℕ} (hl : ∀ b ∈ l, b ≠ 0) (hn : l.length ≤ n) :
    ((List.range n).map fun i => l.getD i 0).takeWhile (· ≠ 0) = l := by
  have hfill : ((List.range n).map fun i => l.getD i 0) = l ++ List.replicate (n - l.length) 0 := by
    refine ext_getElem (by simp; omega) fun i h1 h2 => ?_
    rw [getElem_map, getElem_range, getElem_append]
    split
    · next h => exact getD_eq_getElem _ _ h
    · next h => rw [getElem_replicate, getD_eq_default _ _ (by omega)]
  rw [hfill, takeWhile_append_of_pos fun b hb => by simpa using hl b hb]
  cases n - l.length with
  | zero => exact append_nil l
  | succ k => rw [replicate_succ, takeWhile_cons_of_neg (by simp), append_nil]

lemma cname_deName_dirent (i : ℕ) (name : List UInt8) : cname (deName (dirent i name)) = cname name := by
  have hlen : (cname name).length ≤ DIRSIZ :=
    ( takeWhile_prefix _).length_le.trans (length_take_le _ _)
  have hde : deName (dirent i name) = (List.range DIRSIZ).map fun k => (cname name).getD k 0 :=
    take_of_length_le (by simp [dirent])
  rw [hde]
  show (((List.range DIRSIZ).map fun k => (cname name).getD k 0).take DIRSIZ).takeWhile _ = _
  rw [take_of_length_le (by simp)]
  exact takeWhile_fill (fun b hb => by simpa using (mem_takeWhile_imp hb)) hlen

lemma appended_root_length (files : List Input) :
    (appended (mainCalls files) ROOTINO).length = (files.length + 2) * DESIZE := by
  rw [appended_root, length_flatMap_dirent, rootEntries_length]

namespace Finished

variable {files : List Input}

section

variable {a : ℕ} (h : Finished (appended (mainCalls files)) s)

include h

lemma rootEntry_eq (ha : a < (rootEntries files).length) :
    rootEntry s.img a = dirent (rootEntries files)[a].1 (rootEntries files)[a].2 := by
  refine entry_eq (dirent_length _ _) fun k hk => ?_
  have hlen := appended_root_length files
  have hx : (a * DESIZE + k) / BSIZE < blocksOf (appended (mainCalls files)) ROOTINO := by
    rw [rootEntries_length] at ha
    unfold blocksOf blocks
    rw [hlen, show BSIZE = 1024 from rfl]
    rw [show DESIZE = 16 from rfl] at *
    omega
  unfold contents
  rw [h.built.data ROOTINO (by decide) _ hx, appended_root]
  exact getD_flatMap_dirent _ ha hk

lemma deInum_rootEntry (ha : files.length + 2 ≤ a)
    (hb : (a * DESIZE) / BSIZE < blocksOf (appended (mainCalls files)) ROOTINO) :
    deInum (rootEntry s.img a) = 0 := by
  have hlen := appended_root_length files
  have hz : rootEntry s.img a = List.replicate DESIZE 0 := by
    refine entry_eq length_replicate fun k hk => ?_
    have hx : (a * DESIZE + k) / BSIZE = (a * DESIZE) / BSIZE := by
      rw [show BSIZE = 1024 from rfl]
      rw [show DESIZE = 16 from rfl] at *
      omega
    unfold contents
    rw [h.built.data ROOTINO (by decide) _ (hx ▸ hb), getD_eq_default, getD_replicate _ hk]
    rw [hlen, show DESIZE = 16 from rfl] at *
    omega
  rw [hz]
  rfl

lemma root_lt (ha : a < files.length + 2) :
    a * DESIZE < (dinode sb s.img ROOTINO).size := by
  rw [h.root, appended_root_length, show BSIZE = 1024 from rfl]
  rw [show DESIZE = 16 from rfl]
  omega

/-- The root directory has a block for each part of its size unless its entries fill blocks. -/
lemma root_filled :
    (files.length + 2) % 64 ≠ 0 ↔
      blocks (dinode sb s.img ROOTINO).size ≤ blocksOf (appended (mainCalls files)) ROOTINO := by
  unfold blocksOf blocks
  rw [h.root, appended_root_length, show BSIZE = 1024 from rfl, show DESIZE = 16 from rfl]
  omega

end

lemma bmapAddr_ne (h : Finished D s) {i bn : ℕ} (hi : i < NI) (hbn : bn < MAXFILE) :
    bmapAddr s.img (dinode sb s.img i) bn ≠ 0 ↔ bn < blocksOf D i :=
  (h.built.slot i hi _ (slotOf_lt hbn)).trans hasSlot_slotOf

section

variable {a : ℕ} (h : Finished (appended (mainCalls files)) s)

include h

lemma deInum_ne (hn : files.length ≤ 206) (ha : a < (rootEntries files).length) :
    deInum (rootEntry s.img a) ≠ 0 := by
  have hinum := rootEntries_inum (getElem_mem ha)
  rw [h.rootEntry_eq ha, deInum_dirent _ (by omega)]
  omega

lemma cname_rootEntry (ha : a < (rootEntries files).length) :
    cname (deName (rootEntry s.img a)) = cname (rootEntries files)[a].2 := by
  rw [h.rootEntry_eq ha, cname_deName_dirent]

lemma nodup_iff :
    (rootNames files).Nodup ↔ ∀ a b, a < files.length + 2 → b < files.length + 2 →
      namecmp (deName (rootEntry s.img a)) (deName (rootEntry s.img b)) = true → a = b := by
  have hlen := rootEntries_length files
  rw [← rootEntries_names, nodup_iff_injective_getElem]
  constructor
  · intro hinj a b ha hb hcmp
    have ha' : a < ((rootEntries files).map fun e => cname e.2).length := by simpa [hlen] using ha
    have hb' : b < ((rootEntries files).map fun e => cname e.2).length := by simpa [hlen] using hb
    unfold namecmp at hcmp
    rw [h.cname_rootEntry (by omega), h.cname_rootEntry (by omega), beq_iff_eq] at hcmp
    refine Fin.mk.inj_iff.mp (@hinj ⟨a, ha'⟩ ⟨b, hb'⟩ ?_)
    simpa only [getElem_map] using hcmp
  · rintro hinj ⟨a, ha⟩ ⟨b, hb⟩ he
    simp only [getElem_map] at he
    rw [length_map] at ha hb
    refine Fin.ext (hinj a b (by omega) (by omega) ?_)
    unfold namecmp
    rw [h.cname_rootEntry ha, h.cname_rootEntry hb, beq_iff_eq]
    exact he

lemma wellFormed_iff (hn : files.length ≤ 206) (hfi : s.freeinode = files.length + 2) :
    WellFormed s ↔
      files.length ≤ 198 ∧ (rootNames files).Nodup ∧ (files.length + 2) % 64 ≠ 0 := by
  have hl := layout
  have hsz := sizes
  have hfb := h.fb
  have hrootlt : ROOTINO < NI := by decide
  constructor
  · intro hw
    refine ⟨?_, ?_, ?_⟩
    · have := hw.inodes (files.length + 1) (by omega) (by omega)
      omega
    · have hlen := rootEntries_length files
      refine h.nodup_iff.mpr fun a b ha hb hcmp => ?_
      exact hw.names a b (h.root_lt ha) (h.root_lt hb) (h.deInum_ne hn (by omega))
        (h.deInum_ne hn (by omega)) hcmp
    · refine h.root_filled.mpr (Nat.le_of_not_lt fun hlt => ?_)
      have hfew : blocksOf (appended (mainCalls files)) ROOTINO < MAXFILE := by
        unfold blocksOf blocks
        rw [appended_root_length, show BSIZE = 1024 from rfl, show DESIZE = 16 from rfl]
        omega
      exact lt_irrefl _ ((h.bmapAddr_ne hrootlt hfew).mp (hw.filled ROOTINO (by decide) _ hlt))
  · rintro ⟨h198, hnames, h64⟩
    have hrooteq := h.root_filled.mp h64
    constructor
    case range =>
      intro i hi k hk hne
      have := h.built.range i (inArea_iff.mp hi) k hk ((h.built.slot i (inArea_iff.mp hi) k hk).mp hne)
      omega
    case once =>
      intro i j hi hj k hk l hl' hne he
      have hi := inArea_iff.mp hi
      have hj := inArea_iff.mp hj
      exact h.built.inj i hi j hj k hk l hl' ((h.built.slot i hi k hk).mp hne)
        ((h.built.slot j hj l hl').mp (he ▸ hne)) he
    case bitmap =>
      intro b hb
      unfold used
      rw [show sb.bblock b = sb.bmapstart by unfold Superblock.bblock; rw [Nat.div_eq_of_lt hb]; omega,
        h.bitmap, Nat.mod_eq_of_lt hb, bit_bitmap (by omega)]
    case inodes =>
      intro i _ hi
      omega
    case filled =>
      intro i hi bn hbn
      have hi := inArea_iff.mp hi
      have hle : blocks (dinode sb s.img i).size ≤ blocksOf (appended (mainCalls files)) i := by
        rcases eq_or_ne i ROOTINO with rfl | hne
        · exact hrooteq
        · rw [h.size i hi hne]
          exact le_rfl
      have hfew := h.built.few i hi
      exact (h.bmapAddr_ne hi (by omega)).mpr (by omega)
    case names =>
      have hlive : ∀ a, a * DESIZE < (dinode sb s.img ROOTINO).size →
          deInum (rootEntry s.img a) ≠ 0 → a < files.length + 2 := fun a ha hla => by
        by_contra hge
        refine hla (h.deInum_rootEntry (by omega) (lt_of_lt_of_le ?_ hrooteq))
        unfold blocks
        rw [show BSIZE = 1024 from rfl]
        omega
      exact fun a b ha hb hla hlb hcmp =>
        h.nodup_iff.mp hnames a b (hlive a ha hla) (hlive b hb hlb) hcmp

end

end Finished

lemma counts_main (files : List Input) : wp (main files)
    (fun _ s => s.freeinode = files.length + 2) (fun _ _ => True) start := by
  unfold main
  rw [wp_bind]
  refine wp_mono wp_format ?_ fun _ _ _ => trivial
  rintro - s ⟨-, hfi⟩
  have hroot : Counts 1 makeRoot := (counts_ialloc _).bind fun _ => (counts_throwIf _).bind fun _ =>
    (counts_iappend _ _).bind fun _ => counts_iappend _ _
  have hfix : Counts 0 fixRoot := (counts_rinode _).bind fun _ => counts_winode _ _
  have hend : Counts 0 (do let s ← get; balloc s.freeblock) := fun s =>
    Counts.bind (m := 0) (n := 0) (counts_throwIf _) (fun _ => counts_wsect _ _) s
  have hall := hroot.bind fun _ => (counts_addFiles files).bind fun _ => hfix.bind fun _ => hend
  refine wp_mono (hall s) (fun _ s' h => ?_) fun _ _ h => h
  rw [h, hfi]
  omega

/-- **Which images are well formed.** An image that `mkfs` builds is well formed exactly if there are
at most 198 files, no two entries of the root directory have the same name, and the entries do not
fill the blocks of the root directory. -/
theorem main_wellFormed (files : List Input) (s : Mk) (h : main files start = .ok () s) :
    WellFormed s ↔
      files.length ≤ 198 ∧ (rootNames files).Nodup ∧ (files.length + 2) % 64 ≠ 0 := by
  have hfi := wp_ok (counts_main files) h
  rcases Nat.lt_or_ge 206 files.length with hlt | hn
  · refine ⟨fun hw => ?_, fun hc => absurd hc.1 (by omega)⟩
    have := hw.inodes 200 (by decide) (by omega)
    exact absurd this (by decide)
  · exact (wp_ok (wp_main files hn) h).wellFormed_iff hn hfi

/-- An empty file with a name of one byte. -/
def emptyFile (b : Fin 62) : Input where
  arg := [UInt8.ofNat (97 + b)]
  opens := true
  reads := []
  arg_ne := by
    revert b
    decide
  reads_ok := fun _ h => absurd h not_mem_nil

lemma main_completes (files : List Input) (hn : files.length ≤ 206)
    (hok : ∀ f ∈ files, 47 ∉ stripUser f.arg ∧ f.opens = true)
    (hroom : Room (appended (mainCalls files))) : ∃ s, main files start = .ok () s := by
  obtain ⟨_, s, hs, -⟩ := wp_run (wp_main files hn) fun e _ he => by
    rcases he with ⟨f, hf, ⟨-, hr⟩ | ⟨-, hr⟩⟩ | ho
    · exact (hok f hf).1 hr
    · exact absurd ((hok f hf).2.symm.trans hr) (by decide)
    · exact hroom.not_overflows e ho
  exact ⟨s, hs⟩

/-- A file of three bytes, which come in two reads. -/
def shortFile : Input where
  arg := [99]
  opens := true
  reads := [[1, 2], [3]]
  arg_ne := by decide
  reads_ok := by decide

theorem main_wellFormed_two : ∃ s, main [emptyFile 0, shortFile] start = .ok () s ∧ WellFormed s := by
  obtain ⟨s, hs⟩ := main_completes [emptyFile 0, shortFile] (by decide) (by decide)
    ⟨by decide +kernel, by decide +kernel⟩
  exact ⟨s, hs, (main_wellFormed _ s hs).mpr ⟨by decide, by decide, by decide⟩⟩

/-- Files whose entries fill the first block of the root directory. -/
def sixtyTwo : List Input := (List.finRange 62).map emptyFile

/-- With 62 files the root directory gets a size of two blocks, and has one. -/
theorem main_hole : ∃ s, main sixtyTwo start = .ok () s ∧ ¬ WellFormed s := by
  obtain ⟨s, hs⟩ := main_completes sixtyTwo (by decide) (by decide)
    ⟨by decide +kernel, by decide +kernel⟩
  refine ⟨s, hs, fun hw => ?_⟩
  have h := wp_ok (wp_main sixtyTwo (by decide)) hs
  have hfi := wp_ok (counts_main sixtyTwo) hs
  exact ((h.wellFormed_iff (by decide) hfi).mp hw).2.2 (by decide)

end Xv6.Mkfs
