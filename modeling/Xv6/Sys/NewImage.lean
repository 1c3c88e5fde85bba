import Xv6.Sys.Exec

/-!
What a program finds in its memory when `exec` has succeeded: its segments, as the headers of the
file describe them, and its arguments on the stack.
-/

namespace Xv6.Sys

open Lib.Bytes Lib.Wp Lib.Conc Lib.Own Vm Function
open Fs (smallSb initPath smallWorld)

variable {N : ℕ} {ι : Type} [DecidableEq ι] {ℓ : ι → PageHeap} {p : ι} {t : Task N} {T U : Tree}
  {root n a : ℕ} {h : PageHeap} {img : ℕ → UInt8} {sb : Fs.Superblock} {data : File}
  {path : List UInt8} {argv : List ℕ} {strs : List (List UInt8)}

/-! ### What the user sees -/

section Seen

variable {s : Phys}

omit [DecidableEq ι] in
lemma userByte_eq (L : Loaded U root n img (ℓ p)) (hO : Owned s ℓ) (ha : a / 4096 < n) :
    s.userByte root a = img a := by
  obtain ⟨hpte, hpage⟩ := L.space.seen hO ha
  rw [L.bytes _ ha] at hpage
  rw [Phys.userByte, hpte, ← Option.some.inj hpage, byte_of_lt _ (Nat.mod_lt _ (by decide)), pageOf]
  exact congrArg img (Nat.div_add_mod a 4096)

omit [DecidableEq ι] in
lemma accessible_of_mine (L : Loaded U root n img (ℓ p)) (hO : Owned s ℓ) (ha : a / 4096 < n)
    (hm : Mine U (a / 4096)) : s.Accessible root a := by
  refine ⟨L.space.lt_MAXVA ha, ?_⟩
  rw [(L.space.seen hO ha).1, and_flag _ (by decide), and_flag (f := PTE_U) _ (by decide), hm]
  decide

end Seen

lemma exec_succeeds {r : ℤ} {t' : Task N} (hO : Owned t.phys ℓ) (hx : t.proc.Mem T (ℓ p))
    (hspin : t.fs.spin t.fs.cur = []) (hop : t.fs.op t.fs.cur = false) (hcwd : t.fs.cwd t.fs.cur ≠ none)
    (A : Args (ℓ p) argv strs) (hlen : ∀ str ∈ strs, str.length < 4096) (hmax : argv.length < MAXARG)
    (hrun : exec sb data path argv t = .ok r t') (hr : r ≠ -1) :
    ∃ im U h', Execed data path strs t.proc T (ℓ p) im U h' ∧ r = im.argc ∧
      Owned t'.phys (update ℓ p h') ∧ t'.proc = become t.proc path im := by
  have st : Sits ℓ p t.phys t.fs.books (ℓ p) t.proc t := by
    refine ⟨rfl, hspin, ?_, SameKernel.refl _, rfl⟩
    rwa [update_eq_self]
  have hexec : wp (exec sb data path argv) _ _ t := exec_ok st hx hop hcwd A hlen hmax
  rcases wp_ok hexec hrun with ⟨h1, -⟩ | ⟨im, U, h', X, hargc, st'⟩
  · exact absurd h1 hr
  · exact ⟨im, U, h', X, hargc, st'.owned, st'.proc⟩

/-! ### The arguments -/

/-- The stack pointer after `exec` has pushed the first `i` strings. -/
def spAt (top : ℕ) (strs : List (List UInt8)) (i : ℕ) : ℕ :=
  (strs.take i).foldl (fun sp str => push sp (str.length + 1)) top

def goodFile : File := ⟨program 1 120, by decide +kernel⟩

/-- The offset is `2 ^ 32` too large. -/
def wrapFile : File := ⟨program 1 (2 ^ 32 + 120), by decide +kernel⟩

lemma small_succeeds (data : File)
    (hdata : (outcome (prepare smallSb data initPath [argPage]) smallTask).map Option.isSome = some true) :
    ∃ r t', exec smallSb data initPath [argPage] smallTask = .ok r t' ∧ r ≠ -1 := by
  obtain ⟨ℓ, T, hO, hx, A⟩ := small_ready
  obtain ⟨o, ho, hsome⟩ := Option.map_eq_some_iff.mp hdata
  obtain ⟨im, rfl⟩ := Option.isSome_iff_exists.mp hsome
  have hprep := run_of_outcome ho
  have st : Sits ℓ true smallTask.phys smallTask.fs.books (ℓ true) smallTask.proc smallTask := by
    refine ⟨rfl, rfl, ?_, SameKernel.refl _, rfl⟩
    rwa [update_eq_self]
  obtain ⟨t', hrun⟩ := exec_of_prepare st hx rfl (by decide) A (by decide) (by decide) hprep
  exact ⟨_, t', hrun, by omega⟩

/-- **`exec` builds the argument stack, or refuses.**

- When `exec` succeeds, the arguments are laid out on the stack page, which the user can access; `a1` and
  `sp` are the stack pointer, and what is returned is their number.
- The arguments are refused exactly when they do not fit in a page.
- What is subtracted from the stack pointer is never more than it is. -/
theorem exec_arguments (sb : Fs.Superblock) (data : File) (path : List UInt8) (hO : Owned t.phys ℓ)
    (hx : t.proc.Mem T (ℓ p)) (hspin : t.fs.spin t.fs.cur = []) (hop : t.fs.op t.fs.cur = false)
    (hcwd : t.fs.cwd t.fs.cur ≠ none) (A : Args (ℓ p) argv strs)
    (hlen : ∀ str ∈ strs, str.length < 4096) (hmax : argv.length < MAXARG) :
    (∀ r t', exec sb data path argv t = .ok r t' → r ≠ -1 →
      ∃ sp ptrs, r = strs.length ∧ t'.phys.word (t'.proc.trapframe + SP) = sp ∧
        t'.phys.word (t'.proc.trapframe + A1) = sp ∧
        (∀ a, t'.proc.sz - PGSIZE ≤ a → a < t'.proc.sz → t'.phys.Accessible t'.proc.pagetable a) ∧
        ArgLayout (t'.phys.userByte t'.proc.pagetable) t'.proc.sz sp strs ptrs) ∧
    (∀ s ℓ' U root n img, Owned s ℓ' → Loaded U root n img (ℓ' p) → 2 ≤ n → Mine U (n - 1) →
      Args (ℓ' p) argv strs → (∀ k ∈ argv, ¬ Foot U n k) →
      ∃ r s', run (argStack root (4096 * n) argv) s = .ok r s' ∧ (r = none ↔ PGSIZE < argRoom strs)) ∧
    (∀ n, 2 ≤ n → (∀ i < strs.length, (∀ j ≤ i, 4096 * n - PGSIZE ≤ spAt (4096 * n) strs j) →
        (strs.getD i []).length + 1 ≤ spAt (4096 * n) strs i) ∧
      ((∀ j ≤ strs.length, 4096 * n - PGSIZE ≤ spAt (4096 * n) strs j) →
        (strs.length + 1) * 8 ≤ spAt (4096 * n) strs strs.length)) := by
  have hcount : argv.length = strs.length := A.length_eq
  refine ⟨fun r t' hrun hr => ?_, ?_, fun n hn => ⟨fun i hi hlow => ?_, fun hlow => ?_⟩⟩
  · obtain ⟨im, U, h', X, rfl, hO', hproc⟩ := exec_succeeds hO hx hspin hop hcwd A hlen hmax hrun hr
    obtain ⟨c, hc⟩ := X.regs
    have hmem := hO'.agree (p := p) (by rw [update_self]; exact hc)
    have hram := hx.frame.1
    have L := X.loaded
    rw [← update_self p h' ℓ] at L
    have hsize := X.size
    have hpages : pages im.sz = pages (imageEnd (fileHeaders data)) + 2 := by rw [hsize, pages_mul]
    have hfit := X.fit
    have hup : 8 * (strs.length + 1) ≤ argRoom strs := by
      have := le_up16 (8 * (strs.length + 1))
      unfold argRoom
      omega
    have hsp := X.sp
    have hbig : im.sz < 2 ^ 64 := by
      have := L.space.le
      simp only [RAMPAGES] at this
      omega
    have hlt : im.sp < 256 ^ 8 := by omega
    have hmod : im.sz % 16 = 0 := by omega
    rw [hproc]
    refine ⟨im.sp, argTops im.sz strs, ?_, ?_, ?_, fun a h1 h2 => ?_, ?_⟩
    · rw [X.argc]
    · show t'.phys.word (t.proc.trapframe + SP) = im.sp
      rw [hram.word_eq (by decide), hmem, le_putLe_of_lt _ (by decide) hlt]
    · show t'.phys.word (t.proc.trapframe + A1) = im.sp
      rw [hram.word_eq (by decide), hmem, le_putLe_of_disjoint _ _ (by decide),
        le_putLe_of_disjoint _ _ (by decide), le_putLe_of_lt _ (by decide) hlt]
    · change im.sz - PGSIZE ≤ a at h1
      change a < im.sz at h2
      simp only [PGSIZE] at h1
      exact accessible_of_mine L hO' (by omega) (X.mine _ (by omega) (by omega))
    · show ArgLayout (t'.phys.userByte im.pagetable) im.sz im.sp strs _
      simp only [PGSIZE] at hfit
      have hlay : ArgLayout (stackImage (image data (fileHeaders data)) im.sz strs) im.sz im.sp strs
          (argTops im.sz strs) := by
        rw [hsp]
        exact argLayout hmod hbig (by simp only [PGSIZE]; omega)
      exact hlay.congr (by omega) fun a h1 h2 => userByte_eq L hO' (by omega)
  · intro s ℓ' U root n img hO' L hn hm A' hout
    obtain ⟨r, s', hrun, h', -, -, hQ⟩ :=
      wp_run (Safe.alone (fun _ => trivial) (fun _ => rfl)
        (L.argStack_ok (E := fun _ _ => False) A' hout hn hm hlen hmax) hO' rfl) fun _ _ hf => hf
    refine ⟨r, s', hrun, ?_⟩
    cases r with
    | none => exact iff_of_true rfl hQ.1
    | some r => exact iff_of_false (Option.some_ne_none r) (Nat.not_lt.mpr hQ.1)
  · have := hlow i le_rfl
    have := hlen (strs.getD i []) (by rw [List.getD_eq_getElem _ _ hi]; exact List.getElem_mem hi)
    simp only [PGSIZE] at *
    omega
  · have := hlow _ le_rfl
    simp only [PGSIZE, MAXARG] at *
    omega

/-- The first process calls `exec` with an argument. -/
theorem exec_arguments_hi : ∃ t' sp ptrs, exec smallSb goodFile initPath [argPage] smallTask = .ok 1 t' ∧
    ArgLayout (t'.phys.userByte t'.proc.pagetable) t'.proc.sz sp [[104, 105]] ptrs := by
  obtain ⟨ℓ, T, hO, hx, A⟩ := small_ready
  obtain ⟨r, t', hrun, hr⟩ := small_succeeds goodFile (by decide +kernel)
  obtain ⟨sp, ptrs, rfl, -, -, -, hlay⟩ := (exec_arguments smallSb goodFile initPath hO hx rfl rfl (by decide)
    A (by decide) (by decide)).1 r t' hrun hr
  exact ⟨t', sp, ptrs, hrun, hlay⟩

/-! ### The segments -/

/-- The program headers of a file, where the ELF header says they are. -/
def programHeaders (data : List UInt8) : List Phdr :=
  (List.range (elfhdr data).phnum).map fun i => phdr ((data.drop ((elfhdr data).phoff + PHSIZE * i)).take PHSIZE)

/-- Memory is what the program headers say. -/
structure LoadsExactly (data : List UInt8) (s : Phys) (root sz : ℕ) : Prop where
  table : ∀ i < (elfhdr data).phnum, (elfhdr data).phoff + PHSIZE * (i + 1) ≤ data.length
  inFile : ∀ ph ∈ programHeaders data, ph.type = ELF_PROG_LOAD →
    ph.filesz = 0 ∨ ph.off + ph.filesz ≤ data.length
  loaded : ∀ hs ph hs' a, programHeaders data = hs ++ ph :: hs' → ph.Covers a →
    (∀ ph' ∈ hs', ¬ ph'.Covers a) →
    s.Accessible root a ∧ s.userByte root a = data.getD (ph.off + (a - ph.vaddr)) 0
  zero : ∀ a, (∃ ph ∈ programHeaders data, ph.type = ELF_PROG_LOAD ∧ a < ph.vaddr + ph.memsz) →
    (∀ ph ∈ programHeaders data, ¬ ph.Covers a) → s.Accessible root a ∧ s.userByte root a = 0
  guard : ∀ a, sz - 2 * PGSIZE ≤ a → a < sz - PGSIZE → ¬ s.Accessible root a

/-- The offsets in the file that `exec` uses are numbers of 32 bits. -/
def OffsetsFit (data : List UInt8) : Prop :=
  ((elfhdr data).phnum = 0 ∨ (elfhdr data).phoff < 2 ^ 32) ∧
    ∀ ph ∈ programHeaders data, ph.type = ELF_PROG_LOAD → ph.filesz = 0 ∨ ph.off < 2 ^ 32

lemma headerAt_eq {bytes : List UInt8} {off k : ℕ} (hlt : bytes.length < 2 ^ 32) (hoff : off < 2 ^ 32)
    (hfull : ∀ i < k, (headerAt bytes off i).length = PHSIZE) {i : ℕ} (hi : i < k) :
    headerAt bytes off i = (bytes.drop (off + PHSIZE * i)).take PHSIZE ∧
      off + PHSIZE * (i + 1) ≤ bytes.length := by
  have hmod : off + PHSIZE * i < 2 ^ 32 := by
    induction i with
    | zero => simpa using hoff
    | succ i ih =>
      -- the header before this one was in the file
      have hprev := (readi_full (by decide) (hfull i (by omega))).1
      rw [Nat.mod_eq_of_lt (ih (by omega))] at hprev
      simp only [PHSIZE] at *
      omega
  obtain ⟨h2, h1⟩ := readi_full (by decide) (hfull i hi)
  rw [Nat.mod_eq_of_lt hmod] at h1 h2
  refine ⟨?_, by simp only [PHSIZE] at *; omega⟩
  rw [headerAt, Nat.mod_eq_of_lt hmod, h1]

lemma elfhdr_readi (bytes : List UInt8) : elfhdr (readi bytes 0 64) = elfhdr bytes := by
  have hnum : ∀ o k, o + k ≤ 64 → number (bytes.take 64) o k = number bytes o k := by
    intro o k hok
    rw [number, number, List.drop_take, List.take_take, Nat.min_eq_left (by omega)]
  have hread : readi bytes 0 64 = bytes.take 64 := by
    rw [readi, Fs.readCount, if_neg (by omega), List.drop_zero]
    split
    · rw [List.take_of_length_le (by omega), List.take_of_length_le (by omega)]
    · rfl
  rw [hread, elfhdr, elfhdr, hnum _ _ (by decide), hnum _ _ (by decide), hnum _ _ (by decide),
    hnum _ _ (by decide)]

section Exact

variable {x : Proc} {im : Image} {h' : PageHeap}

lemma Execed.headers (X : Execed data path strs x T h im U h') (hfit : OffsetsFit data) :
    fileHeaders data = programHeaders data ∧
      ∀ i < (elfhdr data).phnum, (elfhdr data).phoff + PHSIZE * (i + 1) ≤ data.1.length := by
  have hfull := X.full
  rw [elfhdr_readi] at hfull
  rw [fileHeaders, elfhdr_readi, programHeaders, Vm.headers]
  rcases hfit.1 with h0 | hoff
  · rw [h0]
    exact ⟨rfl, fun i hi => absurd hi (Nat.not_lt_zero i)⟩
  · refine ⟨List.map_congr_left fun i hi => ?_, fun i hi => (headerAt_eq data.2 hoff hfull hi).2⟩
    rw [(headerAt_eq data.2 hoff hfull (List.mem_range.mp hi)).1]

variable {s : Phys}

omit [DecidableEq ι] in
lemma Execed.seen (X : Execed data path strs x T h im U (ℓ p)) (hO : Owned s ℓ)
    (ha : a < imageEnd (fileHeaders data)) :
    s.Accessible im.pagetable a ∧ s.userByte im.pagetable a = image data (fileHeaders data) a := by
  have hsize := X.size
  have hpages : pages im.sz = pages (imageEnd (fileHeaders data)) + 2 := by rw [hsize, pages_mul]
  have hlt : a / 4096 < pages (imageEnd (fileHeaders data)) := by
    unfold pages
    omega
  have hfit := X.fit
  simp only [PGSIZE] at hfit
  refine ⟨accessible_of_mine X.loaded hO (by omega) (X.mine _ (by omega) (by omega)), ?_⟩
  rw [userByte_eq X.loaded hO (by omega), stackImage_below (by omega) (by omega)]

omit [DecidableEq ι] in
lemma Execed.guarded (X : Execed data path strs x T h im U (ℓ p)) (hO : Owned s ℓ)
    (h1 : im.sz - 2 * PGSIZE ≤ a) (h2 : a < im.sz - PGSIZE) : ¬ s.Accessible im.pagetable a := by
  have hsize := X.size
  have hpages : pages im.sz = pages (imageEnd (fileHeaders data)) + 2 := by rw [hsize, pages_mul]
  simp only [PGSIZE] at h1 h2
  have ha : a / 4096 = pages (imageEnd (fileHeaders data)) := by omega
  rintro ⟨-, -, hU⟩
  rw [(X.loaded.space.seen hO (by omega)).1, ha] at hU
  exact hU X.guard

omit [DecidableEq ι] in
lemma Execed.loadsExactly (X : Execed data path strs x T h im U (ℓ p)) (hO : Owned s ℓ)
    (hfit : OffsetsFit data) : LoadsExactly data s im.pagetable im.sz := by
  obtain ⟨heq, htable⟩ := X.headers hfit
  have hoff : ∀ ph ∈ programHeaders data, ph.type = ELF_PROG_LOAD → ph.filesz ≠ 0 →
      ph.off % 2 ^ 32 = ph.off ∧ ph.off + ph.filesz ≤ data.1.length := by
    intro ph hph hload hne
    have hmod := Nat.mod_eq_of_lt ((hfit.2 ph hph hload).resolve_left hne)
    have hin := (X.good ph (heq ▸ hph) hload).inFile.resolve_left hne
    rw [hmod] at hin
    exact ⟨hmod, hin⟩
  refine ⟨htable, fun ph hph hload => ?_, fun hs ph hs' a hsplit hcov hlast => ?_, fun a hlow hno => ?_,
    fun a h1 h2 => X.guarded hO h1 h2⟩
  · exact or_iff_not_imp_left.mpr fun hne => (hoff ph hph hload hne).2
  · have hph : ph ∈ programHeaders data := by
      rw [hsplit]
      simp
    obtain ⟨hload, hge, hlt⟩ := hcov
    obtain ⟨hmod, hin⟩ := hoff ph hph hload (by omega)
    have hgood := X.good ph (heq ▸ hph) hload
    have hend : a < imageEnd (fileHeaders data) := by
      rw [lt_imageEnd]
      exact ⟨ph, heq ▸ hph, hload, lt_of_lt_of_le hlt (Nat.add_le_add_left hgood.fits _)⟩
    obtain ⟨hacc, hbyte⟩ := X.seen hO hend
    refine ⟨hacc, ?_⟩
    rw [hbyte, heq, hsplit, image_last ⟨hload, hge, hlt⟩ (by rw [hmod]; exact hin) hlast, hmod]
  · rw [← heq, ← lt_imageEnd] at hlow
    obtain ⟨hacc, hbyte⟩ := X.seen hO hlow
    refine ⟨hacc, ?_⟩
    rw [hbyte, heq, image_none hno]

end Exact

/-- **What `exec` loads.** When it succeeds, memory is what the program headers say exactly if the offsets of
the header table and of the segments are numbers of 32 bits. -/
theorem exec_loads_exactly (sb : Fs.Superblock) (data : File) (path : List UInt8) (hO : Owned t.phys ℓ)
    (hx : t.proc.Mem T (ℓ p)) (hspin : t.fs.spin t.fs.cur = []) (hop : t.fs.op t.fs.cur = false)
    (hcwd : t.fs.cwd t.fs.cur ≠ none) (A : Args (ℓ p) argv strs)
    (hlen : ∀ str ∈ strs, str.length < 4096) (hmax : argv.length < MAXARG) :
    ∀ r t', exec sb data path argv t = .ok r t' → r ≠ -1 →
      (LoadsExactly data t'.phys t'.proc.pagetable t'.proc.sz ↔ OffsetsFit data) := by
  intro r t' hrun hr
  obtain ⟨im, U, h', X, -, hO', hproc⟩ := exec_succeeds hO hx hspin hop hcwd A hlen hmax hrun hr
  rw [← update_self p h' ℓ] at X
  rw [hproc]
  refine ⟨fun hL => ⟨?_, fun ph hph hload => ?_⟩, X.loadsExactly hO'⟩
  · rw [or_iff_not_imp_left]
    intro hne
    have := hL.table 0 (Nat.pos_of_ne_zero hne)
    have := data.2
    omega
  · rcases hL.inFile ph hph hload with h0 | hin
    · exact .inl h0
    · have := data.2
      exact .inr (by omega)

/-- `exec` succeeds on a file without the bytes that its header asks for. -/
theorem exec_loads_wrapped : ∃ t' r, exec smallSb wrapFile initPath [argPage] smallTask = .ok r t' ∧ r ≠ -1 ∧
    ∃ ph ∈ programHeaders wrapFile, ph.type = ELF_PROG_LOAD ∧ ph.filesz ≠ 0 ∧
      wrapFile.1.length < ph.off + ph.filesz := by
  obtain ⟨r, t', hrun, hr⟩ := small_succeeds wrapFile (by decide +kernel)
  exact ⟨t', r, hrun, hr, by decide +kernel⟩

/-- The first process calls `exec` of a program whose offsets fit. -/
theorem exec_loads_exactly_good : ∃ t' r, exec smallSb goodFile initPath [argPage] smallTask = .ok r t' ∧
    r ≠ -1 ∧ LoadsExactly goodFile t'.phys t'.proc.pagetable t'.proc.sz := by
  obtain ⟨ℓ, T, hO, hx, A⟩ := small_ready
  obtain ⟨r, t', hrun, hr⟩ := small_succeeds goodFile (by decide +kernel)
  refine ⟨t', r, hrun, hr, (exec_loads_exactly smallSb goodFile initPath hO hx rfl rfl (by decide)
    A (by decide) (by decide) r t' hrun hr).mpr ⟨by decide +kernel, by decide +kernel⟩⟩

end Xv6.Sys
