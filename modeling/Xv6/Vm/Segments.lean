import Xv6.Vm.Exec
import Xv6.Vm.Free

/-!
Loading the segments of a program: `loadseg` of `kernel/exec.c` and the loop over the program
headers.

What user memory contains is a function from addresses to bytes. A segment lays bytes of the
file over it.
-/

namespace Xv6.Vm

open Lib.Bytes Lib.Wp Lib.Conc Lib.Own Lib.Conc.Prog Function List

variable {T T' : Tree} {root n m v va a : ℕ} {h h' : PageHeap} {ι : Type} [DecidableEq ι]
  {E : Stop → Phys → Prop} {p : ι} {img img' : ℕ → UInt8} {src : List UInt8}

/-! ### The contents of user memory -/

/-- Memory `img` with `src` at address `a`. -/
def overlay (img : ℕ → UInt8) (a : ℕ) (src : List UInt8) (x : ℕ) : UInt8 :=
  if a ≤ x ∧ x < a + src.length then src.getD (x - a) 0 else img x

@[simp] lemma overlay_nil (img : ℕ → UInt8) (a : ℕ) : overlay img a [] = img := by
  funext x
  exact if_neg fun hx => by simp only [length_nil] at hx; omega

lemma overlay_append (img : ℕ → UInt8) (a : ℕ) (xs ys : List UInt8) :
    overlay (overlay img a xs) (a + xs.length) ys = overlay img a (xs ++ ys) := by
  funext x
  simp only [overlay, length_append]
  by_cases h1 : a + xs.length ≤ x
  · by_cases h2 : x < a + xs.length + ys.length
    · rw [if_pos ⟨h1, h2⟩, if_pos ⟨by omega, by omega⟩, getD_append_right _ _ _ _ (by omega)]
      congr 1
      omega
    · rw [if_neg fun hx => h2 hx.2, if_neg fun hx => by omega, if_neg fun hx => by omega]
  · rw [if_neg fun hx => h1 hx.1]
    by_cases h2 : a ≤ x
    · rw [if_pos ⟨h2, by omega⟩, if_pos ⟨h2, by omega⟩, getD_append _ _ _ _ (by omega)]
    · rw [if_neg fun hx => h2 hx.1, if_neg fun hx => h2 hx.1]

/-- The page `v` of memory `img`. -/
def pageOf (img : ℕ → UInt8) (v : ℕ) : Page := fun o => img (4096 * v + o)

lemma pageOf_overlay (h1 : 4096 * v ≤ a) :
    pageOf (overlay img a src) v =
      copy (pageOf img v) (a - 4096 * v) src.length fun i => src.getD i 0 := by
  funext o
  simp only [pageOf, overlay, copy]
  by_cases hx : a ≤ 4096 * v + o ∧ 4096 * v + o < a + src.length
  · rw [if_pos hx, if_pos ⟨by omega, by omega⟩]
    congr 1
    omega
  · rw [if_neg hx, if_neg fun hy => hx ⟨by omega, by omega⟩]

lemma pageOf_overlay_other {w : ℕ} (h1 : 4096 * v ≤ a) (h2 : a + src.length ≤ 4096 * (v + 1))
    (hw : w ≠ v) : pageOf (overlay img a src) w = pageOf img w := by
  funext o
  refine if_neg fun hx => hw ?_
  have := o.isLt
  simp only [PGSIZE] at this
  omega

/-- An address space with contents `img`. -/
structure Loaded (T : Tree) (root n : ℕ) (img : ℕ → UInt8) (h : PageHeap) : Prop where
  space : Space T root n h
  bytes : ∀ v < n, h (pte2pa (T.pte v)) = some (pageOf img v)

lemma Loaded.frame
    (L : Loaded T root n img h) (hf : ∀ k, Foot T n k → h' k = h k) : Loaded T root n img h' where
  space := L.space.frame hf
  bytes := fun v hv => by rw [hf _ (foot_page T hv), L.bytes v hv]

/-- Page `v` is mapped as `uvmalloc` maps pages. -/
def Mine (T : Tree) (v : ℕ) : Prop := pteFlags (T.pte v) = UPERM ||| PTE_V

/-- Other pages have not changed. -/
def Kept (T : Tree) (n : ℕ) (h h' : PageHeap) : Prop := ∀ k, ¬ Foot T n k → h' k = h k

lemma Kept.moves (K : Kept T n h h') : Moves (Foot T n) h (Foot T n) h' := Moves.same K

lemma Kept.trans {h'' : PageHeap} (K : Kept T n h h') (K' : Kept T n h' h'') : Kept T n h h'' :=
  fun k hk => (K' k hk).trans (K k hk)

lemma Kept.refl (T : Tree) (n : ℕ) (h : PageHeap) : Kept T n h h := fun _ _ => rfl

section

variable (L : Loaded T root n img h)

include L

lemma Loaded.addr (hv : va / 4096 < n) (hm : Mine T (va / 4096)) :
    T.addr va = pte2pa (T.pte (va / 4096)) := by
  refine if_pos ⟨L.space.lt_MAXVA hv, (L.space.leaf _ hv).1, ?_⟩
  rw [and_flag _ (by decide), hm]
  decide

lemma Loaded.write (hv : v < n) (h1 : 4096 * v ≤ a) (h2 : a + src.length ≤ 4096 * (v + 1)) :
    Loaded T root n (overlay img a src) (update h (pte2pa (T.pte v))
      (some (copy (pageOf img v) (a - 4096 * v) src.length fun i => src.getD i 0))) := by
  refine ⟨L.space.write (L.space.page v hv).2.2 _, fun w hw => ?_⟩
  by_cases hwv : w = v
  · subst hwv
    rw [update_self, pageOf_overlay h1]
  · have hne : pte2pa (T.pte w) ≠ pte2pa (T.pte v) := by
      rcases Nat.lt_or_gt_of_ne hwv with hlt | hgt
      · exact L.space.distinct w v hlt hv
      · exact (L.space.distinct v w hgt hw).symm
    rw [update_of_ne hne, L.bytes w hw, pageOf_overlay_other h1 h2 hwv]

lemma Loaded.writeBytes_ok (hv : v < n) {o : ℕ} (ho : o < 4096) (hlen : o + src.length ≤ 4096) :
    Ok E p (writeBytes (pte2pa (T.pte v) + o) src) (fun _ h' =>
      Loaded T root n (overlay img (4096 * v + o) src) h' ∧ Kept T n h h') h := by
  refine (Vm.writeBytes_ok (L.bytes v hv) ho src).mono ?_
  rintro _ h' rfl
  have hend : 4096 * v + o + src.length ≤ 4096 * (v + 1) := by omega
  have hL := L.write hv (Nat.le_add_right _ o) hend
  rw [show 4096 * v + o - 4096 * v = o by omega] at hL
  refine ⟨hL, fun k hk => update_of_ne ?_ _ _⟩
  rintro rfl
  exact hk (foot_page T hv)

lemma Loaded.widen (hz : ∀ a, 4096 * n ≤ a → img a = 0) (W : Widened T root n h m T' h') :
    Loaded T' root m img h' := by
  refine ⟨W.space, fun v hv => ?_⟩
  by_cases hlt : v < n
  · rw [W.pte v (by omega), W.kept v hlt, L.bytes v hlt]
  · rw [(W.zero v (by omega) hv).2]
    exact congrArg some (funext fun o => (hz _ (by omega)).symm)

end

lemma Widened.mine (W : Widened T root n h m T' h') (hm : ∀ v < n, Mine T v) : ∀ v < m, Mine T' v := by
  intro v hv
  by_cases hlt : v < n
  · rw [Mine, W.pte v (by omega)]
    exact hm v hlt
  · exact (W.zero v (by omega) hv).1

/-! ### `loadseg` -/

lemma readi_length_le (data : List UInt8) (off k : ℕ) : (readi data off k).length ≤ k :=
  (length_take_le _ _).trans (Fs.readCount_le _ _ _)

lemma readi_full {data : List UInt8} {off k : ℕ} (hk : 0 < k) (hlen : (readi data off k).length = k) :
    off + k ≤ data.length ∧ readi data off k = (data.drop off).take k := by
  have hle := Fs.readCount_le data.length off k
  rw [readi, length_take, length_drop] at hlen
  rw [readi, show Fs.readCount data.length off k = k by omega]
  exact ⟨by omega, rfl⟩

/-- After `i` pages of a segment have been loaded. -/
structure Loading (T : Tree) (root n : ℕ) (img : ℕ → UInt8) (h : PageHeap) (va : ℕ) (data : List UInt8)
    (offset sz i : ℕ) (h' : PageHeap) : Prop where
  loaded : Loaded T root n (overlay img va ((data.drop offset).take (min (4096 * i) sz))) h'
  kept : Kept T n h h'
  within : i = 0 ∨ offset + min (4096 * i) sz ≤ data.length

variable {data : List UInt8} {offset sz i : ℕ}

lemma Loading.step {h₁ : PageHeap} (G : Loading T root n img h va data offset sz i h₁)
    (hm : ∀ v < n, Mine T v) (hva : va % 4096 = 0) (hsz : va + sz ≤ 4096 * n) (hi : 4096 * i < sz)
    (hoff : offset < 2 ^ 32) (hdata : data.length < 2 ^ 32) :
    Ok E p (loadStep root va data offset sz (4096 * i)) (fun r h₂ =>
      match r with
      | .inl a => a = 4096 * (i + 1) ∧ Loading T root n img h va data offset sz (i + 1) h₂
      | .inr ok => ok = false ∧ ∃ img', Loaded T root n img' h₂ ∧ Kept T n h h₂) h₁ := by
  have hle := G.loaded.space.le
  have hu : u64 (va + 4096 * i) = va + 4096 * i := by
    simp only [u64, RAMPAGES] at *
    omega
  have hpage : (va + 4096 * i) / 4096 = va / 4096 + i := by omega
  have hv : va / 4096 + i < n := by omega
  have hmod : (offset + 4096 * i) % 2 ^ 32 = offset + 4096 * i := by
    refine Nat.mod_eq_of_lt ?_
    rcases G.within with h0 | h0 <;> omega
  rw [loadStep, if_pos hi, hu]
  refine Safe.bind_read (G.loaded.space.holds.walkaddr_ok _) fun pa hpa => ?_
  rw [G.loaded.addr (by rw [hpage]; exact hv) (by rw [hpage]; exact hm _ hv), hpage] at hpa
  rw [hpa, hmod]
  refine Safe.bind (panicIf_ok (G.loaded.space.page _ hv).1.ne_zero) ?_
  rintro _ h₁ rfl
  dsimp only
  have hk : (if sz - 4096 * i < PGSIZE then sz - 4096 * i else PGSIZE) = min (sz - 4096 * i) 4096 := by
    simp only [PGSIZE]
    split <;> omega
  rw [hk]
  generalize hbytes : readi data (offset + 4096 * i) (min (sz - 4096 * i) 4096) = bytes
  have hlen : bytes.length ≤ min (sz - 4096 * i) 4096 := hbytes ▸ readi_length_le _ _ _
  have hwrite := G.loaded.writeBytes_ok (E := E) (p := p) (o := 0) hv (by omega)
    (show 0 + bytes.length ≤ 4096 by omega)
  rw [Nat.add_zero, Nat.add_zero] at hwrite
  refine Safe.bind hwrite ?_
  rintro _ h₂ ⟨L, K⟩
  by_cases hshort : bytes.length = min (sz - 4096 * i) 4096
  · rw [if_neg (not_not.mpr hshort)]
    obtain ⟨hend, hread⟩ := readi_full (by omega) (hbytes ▸ hshort)
    have hdone : ((data.drop offset).take (4096 * i)).length = 4096 * i := by
      rw [length_take, length_drop]
      rcases G.within with h0 | h0 <;> omega
    refine ⟨?_, ?_, G.kept.trans K, .inr (by omega)⟩
    · simp only [PGSIZE, RAMPAGES] at *
      omega
    · rw [Nat.min_eq_left hi.le, show 4096 * (va / 4096 + i) = va + 4096 * i by omega] at L
      nth_rewrite 2 [← hdone] at L
      rw [overlay_append, ← hbytes, hread, ← drop_drop, ← take_add] at L
      rw [show min (4096 * (i + 1)) sz = 4096 * i + min (sz - 4096 * i) 4096 by omega]
      exact L
  · rw [if_pos hshort]
    exact ⟨rfl, _, L, G.kept.trans K⟩

/-- **What `loadseg` does.** It lays the bytes of the file over memory, or the file is too short. -/
theorem Loaded.loadseg_ok (L : Loaded T root n img h) (hm : ∀ v < n, Mine T v) (hva : va % 4096 = 0)
    (hsz : va + sz ≤ 4096 * n) (hoff : offset < 2 ^ 32) (hdata : data.length < 2 ^ 32) :
    Ok E p (loadseg root va data offset sz) (fun ok h' => Kept T n h h' ∧
      (ok = true → Loaded T root n (overlay img va ((data.drop offset).take sz)) h' ∧
        (sz = 0 ∨ offset + sz ≤ data.length)) ∧
      (ok = false → ∃ img', Loaded T root n img' h')) h := by
  have hle := L.space.le
  refine Safe.bind (panicIf_ok (not_not.mpr hva)) ?_
  rintro _ h rfl
  refine safe_loop (fun k a h' => ∃ i, k = (sz + 4095) / 4096 - i ∧ a = 4096 * i ∧
      i ≤ (sz + 4095) / 4096 ∧ Loading T root n img h va data offset sz i h')
    (n := (sz + 4095) / 4096) ⟨0, rfl, rfl, Nat.zero_le _, ?_, Kept.refl _ _ _, .inl rfl⟩ ?_ ?_
  · rw [Nat.mul_zero, Nat.zero_min, take_zero, overlay_nil]
    exact L
  · simp only [RAMPAGES, rounds] at *
    omega
  · rintro k a h₁ ⟨i, rfl, rfl, hi, G⟩
    by_cases hmore : 4096 * i < sz
    · refine (G.step hm hva hsz hmore hoff hdata).mono ?_
      rintro x h₂ hx
      cases x with
      | inl a =>
        obtain ⟨rfl, G₂⟩ := hx
        exact ⟨(sz + 4095) / 4096 - (i + 1), by omega, i + 1, rfl, rfl, by omega, G₂⟩
      | inr ok =>
        obtain ⟨rfl, img', L', K⟩ := hx
        exact ⟨K, fun h0 => (by cases h0), fun _ => ⟨img', L'⟩⟩
    · rw [loadStep, if_neg hmore]
      obtain ⟨L', K, hw⟩ := G
      rw [Nat.min_eq_right (by omega)] at L' hw
      refine ⟨K, fun _ => ⟨L', ?_⟩, fun h0 => by cases h0⟩
      omega

/-! ### Program headers -/

/-- The fields of a `struct proghdr` that `exec` uses. -/
structure Phdr where
  type : ℕ
  off : ℕ
  vaddr : ℕ
  filesz : ℕ
  memsz : ℕ

def phdr (bytes : List UInt8) : Phdr where
  type := number bytes 0 4
  off := number bytes 8 8
  vaddr := number bytes 16 8
  filesz := number bytes 32 8
  memsz := number bytes 40 8

abbrev PHSIZE : ℕ := 56

abbrev ELF_PROG_LOAD : ℕ := 1

/-- The bytes of header `i` of a table at `off`, as `exec` reads them. -/
def headerAt (data : List UInt8) (off i : ℕ) : List UInt8 := readi data ((off + PHSIZE * i) % 2 ^ 32) PHSIZE

def headers (data : List UInt8) (off k : ℕ) : List Phdr :=
  (List.range k).map fun i => phdr (headerAt data off i)

/-- Memory after a header has been loaded. -/
def Phdr.lay (ph : Phdr) (data : List UInt8) (img : ℕ → UInt8) : ℕ → UInt8 :=
  if ph.type = ELF_PROG_LOAD then
    overlay img ph.vaddr ((data.drop (ph.off % 2 ^ 32)).take ph.filesz)
  else img

/-- The size of memory after a header has been loaded. -/
def Phdr.reach (ph : Phdr) (sz : ℕ) : ℕ :=
  if ph.type = ELF_PROG_LOAD then max sz (ph.vaddr + ph.memsz) else sz

/-- Memory after all headers have been loaded. -/
def image (data : List UInt8) (hs : List Phdr) : ℕ → UInt8 :=
  hs.foldl (fun img ph => ph.lay data img) fun _ => 0

def imageEnd (hs : List Phdr) : ℕ := hs.foldl (fun sz ph => ph.reach sz) 0

/-- What `exec` has checked of a header that it has loaded. -/
structure Phdr.Good (ph : Phdr) (data : List UInt8) : Prop where
  fits : ph.filesz ≤ ph.memsz
  aligned : ph.vaddr % 4096 = 0
  small : ph.vaddr + ph.memsz ≤ 4096 * RAMPAGES
  inFile : ph.filesz = 0 ∨ ph.off % 2 ^ 32 + ph.filesz ≤ data.length

lemma headers_succ (data : List UInt8) (off k : ℕ) :
    headers data off (k + 1) = headers data off k ++ [phdr (headerAt data off k)] := by
  simp [headers, range_succ]

lemma image_snoc (data : List UInt8) (hs : List Phdr) (ph : Phdr) :
    image data (hs ++ [ph]) = ph.lay data (image data hs) := by
  simp [image]

lemma imageEnd_snoc (hs : List Phdr) (ph : Phdr) : imageEnd (hs ++ [ph]) = ph.reach (imageEnd hs) := by
  simp [imageEnd]

lemma number_lt (bytes : List UInt8) (o k : ℕ) : number bytes o k < 256 ^ k := by
  unfold number
  have hlen : ((bytes.drop o).take k).length ≤ k := length_take_le _ _
  generalize (bytes.drop o).take k = bs at hlen
  induction bs generalizing k with
  | nil => exact Nat.pow_pos (by decide)
  | cons b bs ih =>
    cases k with
    | zero => simp at hlen
    | succ k =>
      have h1 := ih k (by simpa using hlen)
      have h2 : b.toNat < 256 := b.toNat_lt
      rw [foldr_cons, pow_succ]
      omega

/-- The header loads a byte to address `a`. -/
def Phdr.Covers (ph : Phdr) (a : ℕ) : Prop :=
  ph.type = ELF_PROG_LOAD ∧ ph.vaddr ≤ a ∧ a < ph.vaddr + ph.filesz

lemma Phdr.lay_other {ph : Phdr} (hno : ¬ ph.Covers a) : ph.lay data img a = img a := by
  unfold Phdr.lay
  split
  · refine if_neg fun hx => hno ⟨‹_›, hx.1, ?_⟩
    have := length_take_le ph.filesz (data.drop (ph.off % 2 ^ 32))
    omega
  · rfl

lemma Phdr.lay_byte {ph : Phdr} (hyes : ph.Covers a) (hin : ph.off % 2 ^ 32 + ph.filesz ≤ data.length) :
    ph.lay data img a = data.getD (ph.off % 2 ^ 32 + (a - ph.vaddr)) 0 := by
  obtain ⟨hload, h1, h2⟩ := hyes
  have hlen : ((data.drop (ph.off % 2 ^ 32)).take ph.filesz).length = ph.filesz := by
    rw [length_take, length_drop]
    omega
  rw [Phdr.lay, if_pos hload, overlay, if_pos ⟨h1, by omega⟩, getD_eq_getElem _ _ (by omega),
    getD_eq_getElem _ _ (by omega), getElem_take, getElem_drop]

lemma image_last {hs hs' : List Phdr} {ph : Phdr} (hyes : ph.Covers a)
    (hin : ph.off % 2 ^ 32 + ph.filesz ≤ data.length) (hlast : ∀ ph' ∈ hs', ¬ ph'.Covers a) :
    image data (hs ++ ph :: hs') a = data.getD (ph.off % 2 ^ 32 + (a - ph.vaddr)) 0 := by
  induction hs' using List.reverseRecOn with
  | nil => rw [image_snoc, Phdr.lay_byte hyes hin]
  | append_singleton hs' ph' ih =>
    rw [← cons_append, ← append_assoc, image_snoc,
      Phdr.lay_other (hlast ph' (by simp)),
      ih fun ph₁ h1 => hlast ph₁ (mem_append_left _ h1)]

lemma image_none {hs : List Phdr} (hno : ∀ ph ∈ hs, ¬ ph.Covers a) : image data hs a = 0 := by
  induction hs using List.reverseRecOn with
  | nil => rfl
  | append_singleton hs ph ih =>
    rw [image_snoc, Phdr.lay_other (hno ph (by simp)),
      ih fun ph₁ h1 => hno ph₁ (mem_append_left _ h1)]

lemma lt_imageEnd {hs : List Phdr} :
    a < imageEnd hs ↔ ∃ ph ∈ hs, ph.type = ELF_PROG_LOAD ∧ a < ph.vaddr + ph.memsz := by
  induction hs using List.reverseRecOn with
  | nil => simp [imageEnd]
  | append_singleton hs ph ih =>
    rw [imageEnd_snoc, Phdr.reach]
    simp only [mem_append, mem_singleton, or_and_right, exists_or, exists_eq_left, ← ih]
    split
    · rename_i hload
      simp only [hload, true_and]
      omega
    · rename_i hload
      simp [hload]

/-! ### The loop over the headers -/

/-- The address space `T` was made from the empty one `T₀`. -/
structure Mapped (T₀ : Tree) (h₀ : PageHeap) (root sz : ℕ) (T : Tree) (h : PageHeap) : Prop where
  space : Space T root (pages sz) h
  moves : Moves (Foot T₀ 0) h₀ (Foot T (pages sz)) h
  tops : ∀ v, IsTop v → T.pte v = T₀.pte v

/-- It has been filled with `img`, which ends at `sz`. -/
structure Segs (T₀ : Tree) (h₀ : PageHeap) (root : ℕ) (img : ℕ → UInt8) (sz : ℕ) (T : Tree)
    (h : PageHeap) : Prop extends Mapped T₀ h₀ root sz T h where
  bytes : ∀ v < pages sz, h (pte2pa (T.pte v)) = some (pageOf img v)
  mine : ∀ v < pages sz, Mine T v
  zero : ∀ a, sz ≤ a → img a = 0

section Segs

variable {T₀ : Tree} {h₀ : PageHeap}

section

variable (G : Segs T₀ h₀ root img sz T h)

include G

lemma Segs.loaded : Loaded T root (pages sz) img h := ⟨G.space, G.bytes⟩

lemma Segs.widen (W : Widened T root (pages sz) h (pages m) T' h') (hm : sz ≤ m) :
    Segs T₀ h₀ root img m T' h' := by
  have hle := W.space.le
  have hL : Loaded T' root (pages m) img h' := by
    refine G.loaded.widen (fun a ha => G.zero a ?_) W
    unfold pages at ha
    omega
  refine ⟨⟨W.space, G.moves.trans W.moves, fun v hv => ?_⟩, hL.bytes, W.mine G.mine,
    fun a ha => G.zero a (by omega)⟩
  rw [W.pte v ?_, G.tops v hv]
  have := (isTop_lt hv).2
  omega

lemma Segs.uvmalloc_ok (newsz : ℕ) :
    Ok E p (uvmalloc root sz newsz) (fun r h' => ∃ T',
      (r = max sz newsz ∧ newsz ≤ 4096 * RAMPAGES ∨ r = 0) ∧
      Segs T₀ h₀ root img (if r = 0 then sz else r) T' h') h := by
  refine (G.space.uvmalloc_ok rfl newsz).mono ?_
  have hsz := G.space.size_le rfl
  rintro r h' (⟨hlt, rfl, rfl⟩ | ⟨hle, rfl, hmax, T', W⟩ | ⟨hle, rfl, T', W⟩)
  · refine ⟨T, .inl ⟨by omega, by omega⟩, ?_⟩
    rw [if_neg (by omega)]
    exact G
  · refine ⟨T', .inl ⟨by omega, hmax⟩, ?_⟩
    by_cases h0 : r = 0
    · have hsz0 : sz = r := by omega
      subst hsz0
      rw [if_pos h0]
      exact G.widen W le_rfl
    · rw [if_neg h0]
      exact G.widen W hle
  · refine ⟨T', .inr rfl, ?_⟩
    rw [if_pos rfl]
    exact G.widen W le_rfl

lemma Segs.loadseg_ok {len : ℕ} (hva : va % 4096 = 0) (hlen : va + len ≤ sz)
    (hoff : offset < 2 ^ 32) (hdata : data.length < 2 ^ 32) :
    Ok E p (loadseg root va data offset len) (fun ok h' =>
      (ok = true ∧ (len = 0 ∨ offset + len ≤ data.length) ∧
        Segs T₀ h₀ root (overlay img va ((data.drop offset).take len)) sz T h') ∨
      (ok = false ∧ Mapped T₀ h₀ root sz T h')) h := by
  have hin : va + len ≤ 4096 * pages sz := by
    unfold pages
    omega
  refine (G.loaded.loadseg_ok G.mine hva hin hoff hdata).mono ?_
  rintro ok h' ⟨K, hyes, hno⟩
  have hmoves := G.moves.trans K.moves
  cases ok with
  | false =>
    obtain ⟨img', L⟩ := hno rfl
    exact .inr ⟨rfl, L.space, hmoves, G.tops⟩
  | true =>
    obtain ⟨L, hfile⟩ := hyes rfl
    refine .inl ⟨rfl, hfile, ⟨L.space, hmoves, G.tops⟩, L.bytes, G.mine, fun a ha => ?_⟩
    have hout : ¬ (va ≤ a ∧ a < va + ((data.drop offset).take len).length) := by
      have := length_take_le len (data.drop offset)
      omega
    rw [overlay, if_neg hout]
    exact G.zero a ha

end

lemma Segs.step {g : Seg} {phnum : ℕ} (G : Segs T₀ h₀ root img g.sz T h) (hi : g.i < phnum)
    (hdata : data.length < 2 ^ 32) :
    Ok E p (segStep root data phnum g) (fun r h' => ∃ T', match r with
      | .inl g' => g'.i = g.i + 1 ∧ g'.off = (g.off + PHSIZE) % 2 ^ 32 ∧
          (readi data g.off PHSIZE).length = PHSIZE ∧
          ((phdr (readi data g.off PHSIZE)).type = ELF_PROG_LOAD →
            (phdr (readi data g.off PHSIZE)).Good data) ∧
          g'.sz = (phdr (readi data g.off PHSIZE)).reach g.sz ∧
          Segs T₀ h₀ root ((phdr (readi data g.off PHSIZE)).lay data img) g'.sz T' h'
      | .inr r => r.1 = false ∧ Mapped T₀ h₀ root r.2 T' h') h := by
  rw [segStep, if_pos hi]
  generalize readi data g.off 56 = bytes
  have hv := number_lt bytes 16 8
  have hmem := number_lt bytes 40 8
  dsimp only
  by_cases hlen : bytes.length ≠ 56
  · rw [if_pos hlen]
    exact ⟨T, rfl, G.toMapped⟩
  rw [if_neg hlen]
  rw [not_not] at hlen
  by_cases htype : number bytes 0 4 ≠ 1
  · rw [if_pos htype]
    have hskip : (phdr bytes).type ≠ ELF_PROG_LOAD := htype
    refine ⟨T, rfl, rfl, hlen, fun ht => absurd ht hskip, ?_, ?_⟩
    · rw [Phdr.reach, if_neg hskip]
    · rw [Phdr.lay, if_neg hskip]
      exact G
  rw [if_neg htype]
  have hload : (phdr bytes).type = ELF_PROG_LOAD := not_not.mp htype
  by_cases hsz : number bytes 40 8 < number bytes 32 8
  · rw [if_pos hsz]
    exact ⟨T, rfl, G.toMapped⟩
  rw [if_neg hsz]
  by_cases hwrap : u64 (number bytes 16 8 + number bytes 40 8) < number bytes 16 8
  · rw [if_pos hwrap]
    exact ⟨T, rfl, G.toMapped⟩
  rw [if_neg hwrap]
  have hend : u64 (number bytes 16 8 + number bytes 40 8) = number bytes 16 8 + number bytes 40 8 := by
    simp only [u64] at *
    omega
  rw [hend]
  refine Safe.bind (G.uvmalloc_ok _) ?_
  rintro r h₁ ⟨T₁, hr, G₁⟩
  by_cases h0 : r = 0
  · rw [if_pos h0] at G₁ ⊢
    exact ⟨T₁, rfl, G₁.toMapped⟩
  rw [if_neg h0] at G₁ ⊢
  obtain ⟨hr, hmax⟩ := hr.resolve_right h0
  by_cases halign : number bytes 16 8 % PGSIZE ≠ 0
  · rw [if_pos halign]
    exact ⟨T₁, rfl, G₁.toMapped⟩
  rw [if_neg halign]
  rw [not_not] at halign
  have hfile : number bytes 32 8 % 2 ^ 32 = number bytes 32 8 := by
    simp only [RAMPAGES] at hmax
    omega
  rw [hfile]
  refine Safe.bind (G₁.loadseg_ok halign (by omega) (Nat.mod_lt _ (by decide)) hdata) ?_
  rintro ok h₂ (⟨rfl, hfit, G₂⟩ | ⟨rfl, M⟩)
  · rw [if_pos rfl]
    refine ⟨T₁, rfl, rfl, hlen, fun _ => ⟨by simp only [phdr]; omega, halign, hmax, hfit⟩, ?_, ?_⟩
    · rw [Phdr.reach, if_pos hload]
      exact hr
    · rw [Phdr.lay, if_pos hload]
      exact G₂
  · rw [if_neg (by decide)]
    exact ⟨T₁, rfl, M⟩

/-- **What the loop over the headers does.** All of them have been loaded, or it has given up. -/
theorem Mapped.segments_ok (M : Mapped T₀ h₀ root 0 T₀ h₀) {phoff phnum : ℕ} (hnum : phnum < 2 ^ 16)
    (hdata : data.length < 2 ^ 32) :
    Ok E p (loop hang (segStep root data phnum) rounds ⟨0, phoff % 2 ^ 32, 0⟩) (fun r h' => ∃ T',
      (r.1 = false ∧ Mapped T₀ h₀ root r.2 T' h') ∨
      (r.1 = true ∧ r.2 = imageEnd (headers data phoff phnum) ∧
        (∀ i < phnum, (headerAt data phoff i).length = PHSIZE) ∧
        (∀ ph ∈ headers data phoff phnum, ph.type = ELF_PROG_LOAD → ph.Good data) ∧
        Segs T₀ h₀ root (image data (headers data phoff phnum)) r.2 T' h')) h₀ := by
  refine safe_loop (fun k (g : Seg) h' => k = phnum - g.i ∧ g.i ≤ phnum ∧
      g.off = (phoff + PHSIZE * g.i) % 2 ^ 32 ∧ g.sz = imageEnd (headers data phoff g.i) ∧
      (∀ i < g.i, (headerAt data phoff i).length = PHSIZE) ∧
      (∀ ph ∈ headers data phoff g.i, ph.type = ELF_PROG_LOAD → ph.Good data) ∧
      ∃ T', Segs T₀ h₀ root (image data (headers data phoff g.i)) g.sz T' h')
    (n := phnum) ⟨rfl, Nat.zero_le _, rfl, rfl, fun i hi => absurd hi (Nat.not_lt_zero i),
      fun ph hph => absurd hph not_mem_nil, T₀, M, fun v hv => ?_, fun v hv => ?_, fun _ _ => rfl⟩
    ?_ ?_
  · exact absurd hv (by simp [pages])
  · exact absurd hv (by simp [pages])
  · simp only [rounds]
    omega
  · rintro k g h₁ ⟨rfl, hi, hoff, hsz, hlen, hgood, T₁, G⟩
    by_cases hmore : g.i < phnum
    · refine (G.step hmore hdata).mono ?_
      rintro r h₂ ⟨T₂, hr⟩
      cases r with
      | inr r => exact ⟨T₂, .inl hr⟩
      | inl g' =>
        obtain ⟨hi', hoff', hlen', hgood', hsz', G'⟩ := hr
        have hread : readi data g.off PHSIZE = headerAt data phoff g.i := by rw [headerAt, hoff]
        rw [hread] at hlen' hgood' hsz' G'
        refine ⟨phnum - g'.i, by omega, rfl, by omega, ?_, ?_, ?_, ?_, T₂, ?_⟩
        · rw [hoff', hoff, hi']
          simp only [PHSIZE]
          omega
        · rw [hi', headers_succ, imageEnd_snoc, ← hsz, hsz']
        · intro i hlt
          rcases Nat.lt_succ_iff_lt_or_eq.mp (hi' ▸ hlt) with h1 | rfl
          · exact hlen i h1
          · exact hlen'
        · intro ph hph
          rw [hi', headers_succ, mem_append, mem_singleton] at hph
          rcases hph with h1 | rfl
          · exact hgood ph h1
          · exact hgood'
        · rw [hi', headers_succ, image_snoc]
          exact G'
    · have hall : g.i = phnum := by omega
      rw [segStep, if_neg hmore]
      rw [hall] at hsz hlen hgood G
      exact ⟨T₁, .inr ⟨rfl, hsz, hlen, hgood, G⟩⟩

end Segs

end Xv6.Vm
