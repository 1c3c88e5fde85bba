import Mathlib.Data.List.TakeWhile
import Xv6.Fs.Layout
import Xv6.Lib.Text

/-!
`find_dir` of `user/find.c`.

The file system is a function from paths to inodes. Each call of `find_dir` keeps a descriptor open
for its directory, and `stat` needs another one for a moment: `findDir` recurses over the number of
descriptors that are left. Each call also takes its frame of the stack, which is one page.
-/

namespace Xv6.Find

open List
open Lib.Text (ch)
open Fs (DIRSIZ)

abbrev MAXPATH : ℕ := 128
/-- The stack that `exec` makes: a page. -/
abbrev STACK : ℕ := 4096

abbrev Str := List UInt8

/-- `struct dirent`, with the array `name`. -/
structure Dirent where
  inum : ℕ
  name : Str

inductive Inode
  | file
  | device (major : ℤ)
  | dir (entries : List Dirent)

/-- What a path leads to. -/
abbrev Files := Str → Option Inode

/-- A call of `printf`: of a path that was found, or of one that `stat` has failed for. -/
inductive Out
  | found (path : Str)
  | failed (path : Str)
  deriving DecidableEq

/-- Why `find` does not return: it has called `exit`, it has left an array, or its stack. -/
inductive Halt
  | exit (msg : String)
  | undefined
  | overflow
  deriving DecidableEq

/-- What a call of `find_dir` takes of the stack: `size` bytes, among them those of `buf`, `de` and `st`.
`calls` bytes are enough for the other functions that it calls. -/
structure Frame where
  size : ℕ
  calls : ℕ
  arrays : 512 + 16 + 24 ≤ size

/-- `strcmp`, of a string with the bytes of an array. -/
def strcmp : Str → Str → Except Halt ℤ
  | _, [] => .error .undefined
  | [], y :: _ => .ok (0 - y.toNat)
  | x :: p, y :: q => if x = y then strcmp p q else .ok (x.toNat - y.toNat)

/-- `open(path, 0)` with `free` descriptors left. -/
def openPath (fs : Files) (free : ℕ) (path : Str) : Option Inode :=
  if path.length < MAXPATH ∧ 0 < free then
    match fs path with
    | some (.device major) => if 0 ≤ major ∧ major < NDEV then some (.device major) else none
    | r => r
  else none

/-- The string `path/name`, where `name` ends at its first NUL. -/
def entryPath (path name : Str) : Str := path ++ ch '/' :: name.takeWhile (· ≠ 0)

/-- One round of the loop over the directory, with `find` for the recursive call. -/
def visit (fs : Files) (tar : Str) (free : ℕ) (find : Str → Except Halt (List Out)) (path : Str)
    (de : Dirent) : Except Halt (List Out) :=
  if de.inum = 0 then .ok []
  -- the last byte is `p[DIRSIZ] = 0`
  else if path.length + 1 + DIRSIZ < 512 then
    let buf := entryPath path de.name
    match openPath fs free buf with
    | none => .ok [.failed buf]
    | some (.dir _) => do
      let self ← strcmp [ch '.'] de.name
      if self ≠ 0 then
        let parent ← strcmp [ch '.', ch '.'] de.name
        if parent ≠ 0 then find buf else .ok []
      else .ok []
    | some .file => do
      let c ← strcmp tar de.name
      if c = 0 then .ok [.found buf] else .ok []
    | some (.device _) => .ok []
  else .error .undefined

/-- What is printed for one after the other. -/
def collect {α : Type} (f : α → Except Halt (List Out)) : List α → Except Halt (List Out)
  | [] => .ok []
  | x :: l => do
    let out ← f x
    let rest ← collect f l
    .ok (out ++ rest)

/-- `find_dir(path)` with `free` descriptors and `stack` bytes left. -/
def findDir (fs : Files) (tar : Str) (fr : Frame) : ℕ → ℕ → Str → Except Halt (List Out)
  | 0, stack, _ =>
    if stack < fr.size + fr.calls then .error .overflow else .error (.exit "dir open faild")
  | free + 1, stack, path =>
    if stack < fr.size + fr.calls then .error .overflow
    else match openPath fs (free + 1) path with
    | none => .error (.exit "dir open faild")
    | some (.dir es) =>
      -- `strcpy(buf, path)`
      if path.length < 512 then
        collect (visit fs tar free (findDir fs tar fr free (stack - fr.size)) path) es
      else .error .undefined
    | some _ => .error (.exit "path is not a dir")

/-! ### Trees -/

inductive Leaf
  | dots
  | file
  | device (major : ℤ)
  deriving DecidableEq

/-- The entries of a directory, and what is below them. The number of an inode is one more than
`i`. -/
inductive Tree
  | nil
  | free (rest : Tree)
  | leaf (i : ℕ) (name : Str) (l : Leaf) (rest : Tree)
  | dir (i : ℕ) (name : Str) (below rest : Tree)

/-- A name in its array. -/
def pad (name : Str) : Str := name ++ List.replicate (DIRSIZ - name.length) 0

def entries : Tree → List Dirent
  | .nil => []
  | .free t => ⟨0, pad []⟩ :: entries t
  | .leaf i name _ t => ⟨i + 1, pad name⟩ :: entries t
  | .dir i name _ t => ⟨i + 1, pad name⟩ :: entries t

def sub (path name : Str) : Str := path ++ ch '/' :: name

def Leads (fs : Files) (path : Str) : Leaf → Prop
  | .dots => ∃ es, fs path = some (.dir es)
  | .file => fs path = some .file
  | .device major => fs path = some (.device major)

/-- What is below `path` is as the tree says. -/
def Holds (fs : Files) : Str → Tree → Prop
  | _, .nil => True
  | p, .free t => Holds fs p t
  | p, .leaf _ name l t => Leads fs (sub p name) l ∧ Holds fs p t
  | p, .dir _ name b t =>
    fs (sub p name) = some (.dir (entries b)) ∧ Holds fs (sub p name) b ∧ Holds fs p t

/-- An entry of the tree, `depth` levels below the start directory; `leaf` is `none` for a
directory. -/
structure Item where
  path : Str
  name : Str
  depth : ℕ
  leaf : Option Leaf

def items : Str → ℕ → Tree → List Item
  | _, _, .nil => []
  | p, d, .free t => items p d t
  | p, d, .leaf _ name l t => ⟨sub p name, name, d, some l⟩ :: items p d t
  | p, d, .dir _ name b t =>
    ⟨sub p name, name, d, none⟩ :: (items (sub p name) (d + 1) b ++ items p d t)

/-- Its name fits the array, and its path is short. -/
structure Item.Proper (x : Item) : Prop where
  fits : x.name.length ≤ DIRSIZ
  nul : 0 ∉ x.name
  dots : x.leaf = some .dots ↔ x.name = [ch '.'] ∨ x.name = [ch '.', ch '.']
  short : x.leaf ≠ some .dots → x.path.length < MAXPATH

/-- The directory at `start` holds the tree. -/
structure Below (fs : Files) (start : Str) (t : Tree) : Prop where
  root : fs start = some (.dir (entries t))
  holds : Holds fs start t
  short : start.length < MAXPATH
  proper : ∀ x ∈ items start 1 t, x.Proper

/-- A regular file with the name that is looked for. -/
def Item.IsWanted (tar : Str) (x : Item) : Prop := x.leaf = some .file ∧ x.name = tar

instance (tar : Str) (x : Item) : Decidable (x.IsWanted tar) := inferInstanceAs (Decidable (_ ∧ _))

/-- The file itself can be opened. -/
def opens : Option Leaf → Bool
  | some (.device major) => 0 ≤ major ∧ major < NDEV
  | _ => true

/-- `stat` has a descriptor for the entry: the standard ones, that of the start directory and those
of the directories above it are taken. -/
def Item.CanStat (x : Item) : Prop :=
  x.path.length < MAXPATH ∧ x.depth + 3 < NOFILE ∧ opens x.leaf

instance (x : Item) : Decidable x.CanStat := inferInstanceAs (Decidable (_ ∧ _ ∧ _))

/-- Nothing goes wrong at the entry: it can be opened, and a name that is compared to the end ends in
its array. -/
structure Item.Seen (tar : Str) (x : Item) : Prop where
  stat : x.CanStat
  name : x.IsWanted tar → x.name.length < DIRSIZ

/-- For a directory, there is room on the stack for the calls down to its own. -/
def Item.Room (fr : Frame) (stack : ℕ) (x : Item) : Prop :=
  x.leaf = none → (x.depth + 1) * fr.size + fr.calls ≤ stack

/-- What an entry that is no directory adds to the output. -/
def report (tar : Str) (x : Item) : Except Halt (List Out) :=
  if x.CanStat then
    if x.IsWanted tar then
      if x.name.length < DIRSIZ then .ok [.found x.path] else .error .undefined
    else .ok []
  else .ok [.failed x.path]

/-! ### Names -/

lemma strcmp_zeros {p name : Str} {m : ℕ} (hp : 0 ∉ p) (hn : 0 ∉ name)
    (hl : p.length ≤ name.length + m) :
    if p = name ∧ m = 0 then strcmp p (name ++ List.replicate m 0) = .error .undefined
    else ∃ c, strcmp p (name ++ List.replicate m 0) = .ok c ∧ (c = 0 ↔ p = name) := by
  induction name generalizing p with
  | nil =>
    rcases m with _ | m
    · have : p = [] := eq_nil_of_length_eq_zero (by simpa using hl)
      simp [this, strcmp]
    · rcases p with _ | ⟨x, p⟩
      · simp [strcmp, replicate_succ]
      · have hx : x ≠ 0 := fun h => hp (by simp [h])
        have hx' : x.toNat ≠ 0 := fun h => hx (UInt8.toNat_inj.mp h)
        simp [strcmp, replicate_succ, hx, hx']
  | cons y name ih =>
    rcases p with _ | ⟨x, p⟩
    · have hy : y ≠ 0 := fun h => hn (by simp [h])
      have hy' : y.toNat ≠ 0 := fun h => hy (UInt8.toNat_inj.mp h)
      simp [strcmp, hy']
    · by_cases hxy : x = y
      · subst hxy
        have := ih (p := p) (fun h => hp (mem_cons_of_mem _ h))
          (fun h => hn (mem_cons_of_mem _ h)) (by simp at hl; omega)
        simpa [strcmp] using this
      · have hne : (x.toNat : ℤ) - y.toNat ≠ 0 := by
          intro h
          exact hxy (UInt8.toNat_inj.mp (by omega))
        simp [strcmp, hxy, hne]

lemma strcmp_pad {p name : Str} (hp : 0 ∉ p) (hn : 0 ∉ name) (hl : p.length ≤ DIRSIZ)
    (hf : name.length ≤ DIRSIZ) :
    if p = name ∧ name.length = DIRSIZ then strcmp p (pad name) = .error .undefined
    else ∃ c, strcmp p (pad name) = .ok c ∧ (c = 0 ↔ p = name) := by
  have hm : DIRSIZ - name.length = 0 ↔ name.length = DIRSIZ := by omega
  have := strcmp_zeros (m := DIRSIZ - name.length) hp hn (by omega)
  simpa only [pad, hm] using this

lemma entryPath_pad {p name : Str} (hn : 0 ∉ name) : entryPath p (pad name) = sub p name := by
  have hall : ∀ x ∈ name, decide (x ≠ 0) = true := by
    intro x hx
    simpa using fun h : x = 0 => hn (h ▸ hx)
  unfold entryPath pad sub
  rw [takeWhile_append_of_pos hall]
  rcases DIRSIZ - name.length with _ | m
  · simp
  · simp [replicate_succ]

/-! ### What a directory reports -/

variable {fs : Files} {tar p name : Str} {free d stack : ℕ} {find : Str → Except Halt (List Out)} {fr : Frame}

lemma strcmp_dots {q : Str} (hq : q = [ch '.'] ∨ q = [ch '.', ch '.']) (hn : 0 ∉ name)
    (hf : name.length ≤ DIRSIZ) : ∃ c, strcmp q (pad name) = .ok c ∧ (c = 0 ↔ q = name) := by
  have h0 : 0 ∉ q ∧ q.length ≤ 2 := by
    rcases hq with rfl | rfl <;> decide
  have := strcmp_pad h0.1 hn (h0.2.trans (by decide)) hf
  rwa [if_neg] at this
  rintro ⟨rfl, h⟩
  have := h0.2
  unfold DIRSIZ at h
  omega

lemma openPath_eq {x : Item} (hd : x.depth + free + 3 = NOFILE)
    (hm : ∀ m, fs x.path = some (.device m) ↔ x.leaf = some (.device m)) :
    openPath fs free x.path = if x.CanStat then fs x.path else none := by
  have hfree : 0 < free ↔ x.depth + 3 < NOFILE := by omega
  unfold openPath
  by_cases hs : x.CanStat
  · rw [if_pos hs, if_pos ⟨hs.1, hfree.mpr hs.2.1⟩]
    rcases hi : fs x.path with _ | _ | m | es
    iterate 2 rfl
    · have hmajor := hs.2.2
      rw [(hm m).mp hi] at hmajor
      simpa [opens] using hmajor
    · rfl
  · rw [if_neg hs]
    split
    · next hc =>
      have hno : opens x.leaf = false := by
        simpa [Item.CanStat, hc.1, hfree.mp hc.2] using hs
      rcases hx : x.leaf with _ | _ | _ | m <;> rw [hx] at hno
      iterate 3 cases hno
      rw [(hm m).mpr hx]
      simpa [opens] using hno
    · rfl

lemma room_of_short (hp : p.length < MAXPATH) : p.length + 1 + DIRSIZ < 512 := by
  unfold MAXPATH at hp
  unfold DIRSIZ
  omega

lemma visit_leaf {l : Leaf} {i : ℕ} (hd : d + free + 3 = NOFILE) (hp : p.length < MAXPATH)
    (ht : 0 ∉ tar ∧ tar.length ≤ DIRSIZ) (hx : Item.Proper ⟨sub p name, name, d, some l⟩)
    (hl : Leads fs (sub p name) l) :
    visit fs tar free find p ⟨i + 1, pad name⟩ = report tar ⟨sub p name, name, d, some l⟩ := by
  have hopen : openPath fs free _ = _ := openPath_eq (x := ⟨sub p name, name, d, some l⟩) hd (by
    rcases l with _ | _ | m
    · obtain ⟨es, hes⟩ := hl
      simp [hes]
    · simp [show fs (sub p name) = _ from hl]
    · simp [show fs (sub p name) = _ from hl])
  unfold visit report
  rw [if_neg i.succ_ne_zero, if_pos (room_of_short hp)]
  simp only [entryPath_pad hx.nul, hopen]
  by_cases hs : Item.CanStat ⟨sub p name, name, d, some l⟩
  · rw [if_pos hs, if_pos hs]
    rcases l with _ | _ | m
    · obtain ⟨es, hes⟩ := hl
      rw [hes, if_neg (by simp [Item.IsWanted])]
      obtain ⟨c, hc, hc0⟩ := strcmp_dots (.inl rfl) hx.nul hx.fits
      obtain ⟨c', hc', hc0'⟩ := strcmp_dots (.inr rfl) hx.nul hx.fits
      rcases hx.dots.mp rfl with rfl | rfl
      · simp [hc, hc0.mpr rfl, bind, Except.bind]
      · simp [hc, hc', hc0, hc0'.mpr rfl, bind, Except.bind]
    · have hc := strcmp_pad ht.1 hx.nul ht.2 hx.fits
      rw [show fs (sub p name) = _ from hl]
      by_cases hw : name = tar
      · subst hw
        rw [if_pos (show Item.IsWanted name _ from ⟨rfl, rfl⟩)]
        by_cases hlen : name.length = DIRSIZ
        · rw [if_pos ⟨rfl, hlen⟩] at hc
          simp [hc, hlen, bind, Except.bind]
        · rw [if_neg fun h => hlen h.2] at hc
          obtain ⟨c, hc, hc0⟩ := hc
          simp [hc, hc0, lt_of_le_of_ne hx.fits hlen, bind, Except.bind]
      · rw [if_neg fun h => hw h.1.symm] at hc
        obtain ⟨c, hc, hc0⟩ := hc
        simp [hc, hc0, hw, Ne.symm hw, Item.IsWanted, bind, Except.bind]
    · rw [show fs (sub p name) = _ from hl, if_neg (by simp [Item.IsWanted])]
  · rw [if_neg hs, if_neg hs]

lemma visit_dir {es : List Dirent} {i : ℕ} (hp : p.length < MAXPATH)
    (hx : Item.Proper ⟨sub p name, name, d, none⟩) (hfs : fs (sub p name) = some (.dir es)) :
    visit fs tar free find p ⟨i + 1, pad name⟩ =
      if 0 < free then find (sub p name) else .ok [.failed (sub p name)] := by
  have hpath : (sub p name).length < MAXPATH := hx.short (by simp)
  have hdots : ¬(name = [ch '.'] ∨ name = [ch '.', ch '.']) := fun h => by
    simpa using hx.dots.mpr h
  unfold visit
  rw [if_neg i.succ_ne_zero, if_pos (room_of_short hp)]
  simp only [entryPath_pad hx.nul]
  by_cases hfree : 0 < free
  · obtain ⟨c, hc, hc0⟩ := strcmp_dots (.inl rfl) hx.nul hx.fits
    obtain ⟨c', hc', hc0'⟩ := strcmp_dots (.inr rfl) hx.nul hx.fits
    have h1 : c ≠ 0 := fun h => hdots (.inl (hc0.mp h).symm)
    have h2 : c' ≠ 0 := fun h => hdots (.inr (hc0'.mp h).symm)
    simp [openPath, hpath, hfree, hfs, hc, hc', h1, h2, bind, Except.bind]
  · simp [openPath, hfree]

lemma findDir_succ {t : Tree} (hp : p.length < MAXPATH) (hroot : fs p = some (.dir (entries t))) :
    findDir fs tar fr (free + 1) stack p = if stack < fr.size + fr.calls then .error .overflow
      else collect (visit fs tar free (findDir fs tar fr free (stack - fr.size)) p) (entries t) := by
  have hbuf : p.length < 512 := hp.trans (by decide)
  simp [findDir, openPath, hp, hroot, hbuf]

lemma report_seen {x : Item} (h : x.Seen tar) :
    report tar x = .ok (if x.IsWanted tar then [.found x.path] else []) := by
  unfold report
  rw [if_pos h.stat]
  by_cases hw : x.IsWanted tar
  · rw [if_pos hw, if_pos hw, if_pos (h.name hw)]
  · rw [if_neg hw, if_neg hw]

lemma collect_ok {α : Type} {f : α → Except Halt (List Out)} {x : α} {l : List α} {out : List Out}
    (h : collect f (x :: l) = .ok out) :
    ∃ a b, f x = .ok a ∧ collect f l = .ok b ∧ out = a ++ b := by
  rw [collect] at h
  cases hx : f x with
  | error e =>
    rw [hx] at h
    cases h
  | ok a =>
    cases hl : collect f l with
    | error e =>
      rw [hx, hl] at h
      cases h
    | ok b =>
      rw [hx, hl] at h
      cases h
      exact ⟨a, b, rfl, rfl, rfl⟩

lemma collect_cons {α : Type} {f : α → Except Halt (List Out)} {x : α} {l : List α} {a b : List Out}
    (hx : f x = .ok a) (hl : collect f l = .ok b) : collect f (x :: l) = .ok (a ++ b) := by
  rw [collect, hx, hl]
  rfl

/-- The lines for the files that are looked for. -/
def expected (tar : Str) (l : List Item) : List Out := (l.filter fun x => x.IsWanted tar).map fun x => .found x.path

lemma expected_append (l l' : List Item) : expected tar (l ++ l') = expected tar l ++ expected tar l' := by
  simp [expected]

section

variable {t : Tree} (ht : 0 ∉ tar ∧ tar.length ≤ DIRSIZ)

include ht

/-- If all goes well, the files that are looked for are printed. Here `left` is what the call at depth
`d` leaves of the stack. -/
lemma collect_visit {left : ℕ} (hd : d + free + 3 = NOFILE) (hstack : d * fr.size + left = stack)
    (hp : p.length < MAXPATH) (hh : Holds fs p t) (hn : ∀ x ∈ items p d t, x.Proper)
    (hroom : ∀ x ∈ items p d t, x.Room fr stack) (hseen : ∀ x ∈ items p d t, x.Seen tar) :
    collect (visit fs tar free (findDir fs tar fr free left) p) (entries t) =
      .ok (expected tar (items p d t)) := by
  induction t generalizing p d free left with
  | nil => rfl
  | free t ih => exact collect_cons (a := []) rfl (ih hd hstack hp hh hn hroom hseen)
  | leaf i name l t ih =>
    have hhead : visit fs tar free (findDir fs tar fr free left) p ⟨i + 1, pad name⟩ = _ :=
      (visit_leaf hd hp ht (hn _ (.head _)) hh.1).trans (report_seen (hseen _ (.head _)))
    have hrest := ih hd hstack hp hh.2 (fun x h => hn x (.tail _ h)) (fun x h => hroom x (.tail _ h))
      fun x h => hseen x (.tail _ h)
    rw [entries, collect_cons hhead hrest, items]
    by_cases hw : Item.IsWanted tar ⟨sub p name, name, d, some l⟩ <;> simp [hw, expected]
  | dir i name b t ihb iht =>
    obtain ⟨hroot, hb, hrest⟩ := hh
    have hx : Item.Proper ⟨sub p name, name, d, none⟩ := hn _ (.head _)
    have hs : Item.Seen tar ⟨sub p name, name, d, none⟩ := hseen _ (.head _)
    have hpath := hs.stat.1
    have hdepth : d + 3 < NOFILE := hs.stat.2.1
    have hframe : (d + 1) * fr.size + fr.calls ≤ stack := hroom _ (.head _) rfl
    rw [Nat.add_one_mul] at hframe
    obtain ⟨free, rfl⟩ := Nat.exists_eq_add_one.mpr (show 0 < free by omega)
    have hbelow := ihb (show d + 1 + free + 3 = NOFILE by omega)
      (show (d + 1) * fr.size + (left - fr.size) = stack by rw [Nat.add_one_mul]; omega) hpath hb (fun x h => hn x (.tail _ (mem_append_left _ h)))
      (fun x h => hroom x (.tail _ (mem_append_left _ h))) fun x h => hseen x (.tail _ (mem_append_left _ h))
    have hhead : visit fs tar (free + 1) (findDir fs tar fr (free + 1) left) p ⟨i + 1, pad name⟩ =
        .ok (expected tar (items (sub p name) (d + 1) b)) := by
      rw [visit_dir hp hx hroot, if_pos free.succ_pos, findDir_succ hpath hroot, if_neg (by omega), hbelow]
    rw [entries, collect_cons hhead (iht hd hstack hp hrest
      (fun x h => hn x (.tail _ (mem_append_right _ h))) (fun x h => hroom x (.tail _ (mem_append_right _ h)))
      fun x h => hseen x (.tail _ (mem_append_right _ h))),
      items, ← expected_append, expected, expected, filter_cons_of_neg (by simp [Item.IsWanted])]

/-- If it returns without a diagnostic, nothing went wrong. -/
lemma seen_of_collect {left : ℕ} {out : List Out} (hd : d + free + 3 = NOFILE) (hp : p.length < MAXPATH)
    (hh : Holds fs p t) (hn : ∀ x ∈ items p d t, x.Proper)
    (hout : collect (visit fs tar free (findDir fs tar fr free left) p) (entries t) = .ok out)
    (hclean : ∀ q, .failed q ∉ out) : ∀ x ∈ items p d t, x.Seen tar := by
  induction t generalizing p d free left out with
  | nil => exact fun x hx => absurd hx not_mem_nil
  | free t ih =>
    obtain ⟨a, b, ha, hb, rfl⟩ := collect_ok hout
    exact ih hd hp hh hn hb fun q hq => hclean q (mem_append_right _ hq)
  | leaf i name l t ih =>
    obtain ⟨a, b, ha, hb, rfl⟩ := collect_ok hout
    refine forall_mem_cons.mpr ⟨?_, ih hd hp hh.2 (fun x h => hn x (.tail _ h)) hb
      fun q hq => hclean q (mem_append_right _ hq)⟩
    rw [visit_leaf hd hp ht (hn _ (.head _)) hh.1, report] at ha
    split_ifs at ha with hs hw hlen
    · exact ⟨hs, fun _ => hlen⟩
    · exact ⟨hs, fun h => absurd h hw⟩
    · cases ha
      exact absurd (mem_append_left _ (mem_singleton_self _)) (hclean _)
  | dir i name b t ihb iht =>
    obtain ⟨a, c, ha, hc, rfl⟩ := collect_ok hout
    obtain ⟨hroot, hb, hrest⟩ := hh
    have hx : Item.Proper ⟨sub p name, name, d, none⟩ := hn _ (.head _)
    have hpath : (sub p name).length < MAXPATH := hx.short (by simp)
    rw [visit_dir hp hx hroot] at ha
    cases free with
    | zero =>
      cases ha
      exact absurd (mem_append_left _ (mem_singleton_self _)) (hclean _)
    | succ free =>
      rw [if_pos free.succ_pos, findDir_succ hpath hroot] at ha
      split_ifs at ha with hlow
      have hbelow := ihb (show d + 1 + free + 3 = NOFILE by omega) hpath hb
        (fun x h => hn x (.tail _ (mem_append_left _ h))) ha fun q hq => hclean q (mem_append_left _ hq)
      have hrest' := iht hd hp hrest (fun x h => hn x (.tail _ (mem_append_right _ h))) hc
        fun q hq => hclean q (mem_append_right _ hq)
      have hstat : Item.CanStat ⟨sub p name, name, d, none⟩ := ⟨hpath, by simp only; omega, rfl⟩
      exact forall_mem_cons.mpr ⟨⟨hstat, by simp [Item.IsWanted]⟩,
        fun x h => (mem_append.mp h).elim (hbelow x) (hrest' x)⟩

end

/-- **`find_dir` prints the paths of the files.** Below any directory, and with room on the stack for the
first call and for one more per level of directories, `find_dir` returns, and prints the paths of the
regular files with the name that is looked for, each once, and nothing else, if and only if

- every entry can be opened: it is at most twelve levels below the start, its path is short, also that
  of `.` and `..`, and a device has a valid number,
- the name, where there is such a file, is shorter than its array. -/
theorem find_dir_exact {start : Str} {t : Tree} (h : Below fs start t) (h0 : 0 ∉ tar)
    (hlen : tar.length ≤ DIRSIZ) (hfirst : fr.size + fr.calls ≤ stack)
    (hroom : ∀ x ∈ items start 1 t, x.Room fr stack) :
    findDir fs tar fr (NOFILE - 3) stack start =
      .ok (((items start 1 t).filter fun x => x.IsWanted tar).map fun x => .found x.path) ↔
    ∀ x ∈ items start 1 t, x.Seen tar := by
  rw [show NOFILE - 3 = 12 + 1 from rfl, findDir_succ h.short h.root, if_neg (by omega)]
  constructor
  · intro hok
    exact seen_of_collect ⟨h0, hlen⟩ (by decide) h.short h.holds h.proper hok (by simp)
  · intro hseen
    exact collect_visit ⟨h0, hlen⟩ (by decide) (by omega) h.short h.holds h.proper hroom hseen

/-- The files of a tree at `p`. -/
def below (p : Str) : Tree → Files
  | .nil, _ => none
  | .free t, q => below p t q
  | .leaf _ name l t, q => if q = sub p name then some (match l with
      | .dots => .dir []
      | .file => .file
      | .device major => .device major) else below p t q
  | .dir _ name b t, q =>
    if q = sub p name then some (.dir (entries b)) else (below (sub p name) b q).or (below p t q)

/-- A file system with the tree in the directory `.`. -/
def filesOf (t : Tree) : Files := fun q => if q = [ch '.'] then some (.dir (entries t)) else below [ch '.'] t q

def someFrame : Frame := ⟨592, 256, by decide⟩

/-- Directories `d`, one in the other. -/
def nested : ℕ → Tree
  | 0 => .nil
  | n + 1 => .dir 1 [ch 'd'] (nested n) .nil

lemma overflow_nested {n : ℕ} (hp : p.length < MAXPATH) (hroot : fs p = some (.dir (entries (nested n))))
    (hh : Holds fs p (nested n)) (hn : ∀ x ∈ items p d (nested n), x.Proper) (hfree : n < free)
    (hlow : stack < (n + 1) * fr.size) : findDir fs tar fr free stack p = .error .overflow := by
  induction n generalizing p d free stack with
  | zero =>
    obtain ⟨free, rfl⟩ := Nat.exists_eq_add_one.mpr hfree
    rw [findDir_succ hp hroot, if_pos (by omega)]
  | succ n ih =>
    obtain ⟨free, rfl⟩ := Nat.exists_eq_add_one.mpr (Nat.zero_lt_of_lt hfree)
    obtain ⟨hroot', hb, -⟩ := hh
    have hx : Item.Proper ⟨sub p [ch 'd'], [ch 'd'], d, none⟩ := hn _ (.head _)
    rw [Nat.add_one_mul] at hlow
    rw [findDir_succ hp hroot]
    split_ifs with hroom
    · rfl
    have hbelow := ih (hx.short (by simp)) hroot' hb
      (fun x h => hn x (.tail _ (mem_append_left _ h))) (show n < free by omega)
      (show stack - fr.size < (n + 1) * fr.size by omega)
    rw [nested, entries, collect, visit_dir hp hx hroot', if_pos (by omega), hbelow]
    rfl

/-- A name that fills its array. -/
def fullName : Str := List.replicate DIRSIZ (ch 'a')

/-- The comparison with a name of fourteen bytes does not end in its array. And seven directories below
the first are too many for the stack, whatever the size of a frame. -/
theorem find_dir_reads_past :
    (Below (filesOf (.leaf 1 fullName .file .nil)) [ch '.'] (.leaf 1 fullName .file .nil) ∧
      findDir (filesOf (.leaf 1 fullName .file .nil)) fullName someFrame (NOFILE - 3) STACK [ch '.'] =
        .error .undefined) ∧
    Below (filesOf (nested 7)) [ch '.'] (nested 7) ∧ ∀ fr,
      findDir (filesOf (nested 7)) [ch 'b'] fr (NOFILE - 3) STACK [ch '.'] = .error .overflow := by
  have hdeep : Below (filesOf (nested 7)) [ch '.'] (nested 7) := by
    refine ⟨rfl, ?_, by decide, ?_⟩
    · simp only [nested, Holds, and_true]
      exact ⟨rfl, rfl, rfl, rfl, rfl, rfl, rfl⟩
    · simp only [nested, items, forall_mem_cons, append_nil]
      refine ⟨?_, ?_, ?_, ?_, ?_, ?_, ?_, forall_mem_nil _⟩ <;>
        exact ⟨by decide, by decide, by decide, by decide⟩
  refine ⟨⟨⟨rfl, ⟨rfl, trivial⟩, by decide, ?_⟩, by decide⟩, hdeep, fun fr => ?_⟩
  · intro x hx
    obtain rfl : x = _ := mem_singleton.mp hx
    exact ⟨by decide, by decide, by decide, by decide⟩
  · have := fr.arrays
    exact overflow_nested hdeep.short hdeep.root hdeep.holds hdeep.proper (by decide)
      (by unfold STACK; omega)

/-- Two files `b`, one of them in the directory `d`. -/
def twoFiles : Tree :=
  .leaf 1 [ch '.'] .dots (.leaf 2 [ch 'b'] .file (.dir 3 [ch 'd']
    (.leaf 3 [ch '.'] .dots (.leaf 4 [ch 'b'] .file .nil)) .nil))

theorem find_dir_exact_two :
    findDir (filesOf twoFiles) [ch 'b'] someFrame (NOFILE - 3) STACK [ch '.'] =
      .ok [.found (sub [ch '.'] [ch 'b']), .found (sub (sub [ch '.'] [ch 'd']) [ch 'b'])] := by
  have h : Below (filesOf twoFiles) [ch '.'] twoFiles := by
    refine ⟨rfl, ⟨⟨_, rfl⟩, rfl, rfl, ⟨⟨_, rfl⟩, rfl, trivial⟩, trivial⟩, by decide, ?_⟩
    simp only [twoFiles, items, forall_mem_cons, nil_append, cons_append]
    refine ⟨?_, ?_, ?_, ?_, ?_, forall_mem_nil _⟩ <;> exact ⟨by decide, by decide, by decide, by decide⟩
  refine (find_dir_exact h (by decide) (by decide) (by decide) ?_).mpr ?_ <;>
    simp only [twoFiles, items, forall_mem_cons, nil_append, cons_append]
  · refine ⟨?_, ?_, ?_, ?_, ?_, forall_mem_nil _⟩ <;> unfold Item.Room <;> decide
  · refine ⟨?_, ?_, ?_, ?_, ?_, forall_mem_nil _⟩ <;> exact ⟨by decide, by decide⟩

end Xv6.Find
