import Xv6.Vm.Segments

/-!
The stack of a new program: the argument strings and the array of pointers to them, as
`kernel/exec.c` pushes them.
-/

namespace Xv6.Vm

open Lib.Bytes Lib.Wp Lib.Conc Lib.Own Lib.Conc.Prog Function List

variable {T T' : Tree} {root n m v va a sp : ℕ} {h h' : PageHeap} {ι : Type} [DecidableEq ι]
  {E : Stop → Phys → Prop} {p : ι} {img img' : ℕ → UInt8} {src str : List UInt8}
  {strs : List (List UInt8)}

/-! ### One page -/

lemma Loaded.copyout_ok (L : Loaded T root n img h) (hv : v < n) (hm : Mine T v) (h1 : 4096 * v ≤ va)
    (h2 : va + src.length ≤ 4096 * (v + 1)) :
    Ok E p (copyout root va src) (fun ok h' => ok = true ∧ Loaded T root n (overlay img va src) h' ∧
      Kept T n h h') h := by
  refine safe_loop (fun k (cur : ℕ × List UInt8) h' =>
      (k = 1 ∧ cur = (va, src) ∧ h' = h) ∨
      (k = 0 ∧ cur.2 = [] ∧ Loaded T root n (overlay img va src) h' ∧ Kept T n h h'))
    (n := 1) (.inl ⟨rfl, rfl, rfl⟩) (by decide) ?_
  rintro k cur h₁ (⟨rfl, rfl, rfl⟩ | ⟨rfl, hnil, L', K⟩)
  · rw [outStep]
    by_cases hnil : src = []
    · subst hnil
      rw [if_pos rfl]
      exact ⟨rfl, by rw [overlay_nil]; exact L, Kept.refl _ _ _⟩
    have hlen : 0 < src.length := length_pos_iff.mpr hnil
    rw [if_neg hnil]
    dsimp only
    have hround : pgRoundDown va = 4096 * v := by
      simp only [pgRoundDown, PGSIZE]
      omega
    rw [hround]
    have hdiv : 4096 * v / 4096 = v := by omega
    refine Safe.bind_read (L.space.holds.walkaddr_ok _) fun pa hpa => ?_
    rw [L.addr (by rw [hdiv]; exact hv) (by rw [hdiv]; exact hm), hdiv] at hpa
    rw [hpa, if_neg (L.space.page v hv).1.ne_zero, Nat.min_eq_right (by simp only [PGSIZE]; omega),
      take_length, drop_length]
    refine Safe.bind (L.writeBytes_ok hv (by omega) (by omega)) ?_
    rintro _ h₂ ⟨L', K⟩
    rw [show 4096 * v + (va - 4096 * v) = va by omega] at L'
    exact ⟨0, by omega, .inr ⟨rfl, rfl, L', K⟩⟩
  · rw [outStep, if_pos hnil]
    exact ⟨rfl, L', K⟩

lemma Loaded.uvmclear_ok (L : Loaded T root n img h) (hv : v < n) (hm : Mine T v) :
    Ok E p (uvmclear root (4096 * v)) (fun _ h' =>
      Loaded (T.set v (clearU (T.pte v))) root n img h' ∧
      Moves (Foot T n) h (Foot (T.set v (clearU (T.pte v))) n) h') h := by
  have hdiv : 4096 * v / 4096 = v := by omega
  have hlt : 4096 * v < MAXVA := L.space.lt_MAXVA (by rw [hdiv]; exact hv)
  have hne : T.pte v ≠ 0 := fun h0 => (L.space.leaf v hv).1 (by rw [h0]; exact Nat.zero_and _)
  refine (L.space.holds.uvmclear_ok (4096 * v) (.inl ⟨hlt, by rw [hdiv]; exact hne⟩)).mono ?_
  rw [hdiv]
  rintro _ h' ⟨-, H, hf⟩
  have hpte : ∀ w, w ≠ v → (T.set v (clearU (T.pte v))).pte w = T.pte w :=
    fun w hw => update_of_ne hw _ _
  have hself : (T.set v (clearU (T.pte v))).pte v = clearU (T.pte v) := update_self ..
  have hpa : ∀ w, pte2pa ((T.set v (clearU (T.pte v))).pte w) = pte2pa (T.pte w) := by
    intro w
    by_cases hw : w = v
    · rw [hw, hself, pte2pa_clearU (L.space.holds.pte_lt v)]
    · rw [hpte w hw]
  have hsame : ∀ w < n, h' (pte2pa (T.pte w)) = h (pte2pa (T.pte w)) :=
    fun w hw => hf _ (L.space.page w hw).2.2
  refine ⟨⟨⟨H, fun w hw => ?_, fun w hw => ?_, fun w w' hww hw => ?_, fun w hw ht => ?_⟩, fun w hw => ?_⟩, ?_⟩
  · by_cases hwv : w = v
    · rw [hwv, hself, and_flag _ (by decide), pteFlags_clearU, hm]
      decide
    · rw [hpte w hwv]
      exact L.space.leaf w hw
  · rw [hpa, hsame w hw]
    exact L.space.page w hw
  · rw [hpa, hpa]
    exact L.space.distinct w w' hww hw
  · rw [hpte w (by omega)]
    exact L.space.void w hw ht
  · rw [hpa, hsame w hw, L.bytes w hw]
  · have hfoot : ∀ k, Foot (T.set v (clearU (T.pte v))) n k ↔ Foot T n k := by
      intro k
      refine or_congr Iff.rfl (exists_congr fun w => ?_)
      rw [hpa]
    refine (Moves.same fun k hk => hf k fun hh => hk (.inl hh)).congr (fun _ => Iff.rfl) fun k => ?_
    exact (hfoot k).symm

/-! ### The strings -/

/-- Up to a multiple of 16. -/
def up16 (n : ℕ) : ℕ := (n + 15) / 16 * 16

lemma push_eq (hsp : sp % 16 = 0) (hle : m ≤ sp) (hlt : sp < 2 ^ 64) :
    push sp m = sp - up16 m ∧ up16 m ≤ sp := by
  simp only [push, up16, u64]
  omega

/-- The room that strings take. -/
def argSize (strs : List (List UInt8)) : ℕ := (strs.map fun str => up16 (str.length + 1)).sum

/-- Where each string is, if the first one ends at `sp`. -/
def argTops : ℕ → List (List UInt8) → List ℕ
  | _, [] => []
  | sp, str :: strs => (sp - up16 (str.length + 1)) :: argTops (sp - up16 (str.length + 1)) strs

/-- Memory with the strings in it. -/
def layArgs (img : ℕ → UInt8) : ℕ → List (List UInt8) → ℕ → UInt8
  | _, [] => img
  | sp, str :: strs =>
    layArgs (overlay img (sp - up16 (str.length + 1)) (str ++ [0])) (sp - up16 (str.length + 1)) strs

/-- The string in a page. -/
def strOf (c : Page) : List UInt8 := ((List.range PGSIZE).map fun i => byte c (0 + i)).takeWhile (· ≠ 0)

/-- The pages `argv` hold the strings `strs`. -/
def Args (h : PageHeap) (argv : List ℕ) (strs : List (List UInt8)) : Prop :=
  List.Forall₂ (fun k str => ∃ c, h k = some c ∧ strOf c = str) argv strs

lemma Args.mono {argv : List ℕ} (A : Args h argv strs) (hk : ∀ k ∈ argv, h' k = h k) :
    Args h' argv strs := by
  induction A with
  | nil => exact .nil
  | cons hd _ ih =>
    obtain ⟨c, hc, hs⟩ := hd
    refine .cons ⟨c, ?_, hs⟩ (ih fun k hmem => hk k (mem_cons_of_mem _ hmem))
    rw [hk _ mem_cons_self, hc]

lemma Args.owned {argv : List ℕ} (A : Args h argv strs) (k : ℕ) (hk : k ∈ argv) : h k ≠ none := by
  obtain ⟨i, hi, rfl⟩ := getElem_of_mem hk
  obtain ⟨c, hc, -⟩ := A.get hi (A.length_eq ▸ hi)
  simpa using hc ▸ Option.some_ne_none c

lemma Args.kept {argv : List ℕ} (A : Args h argv strs) (K : Kept T n h h')
    (hout : ∀ k ∈ argv, ¬ Foot T n k) : Args h' argv strs := A.mono fun k hk => K k (hout k hk)

/-- **What the loop over the arguments does.** All strings are on the stack page, which starts at
`base`, or they do not fit. -/
theorem Loaded.pushArgs_ok {base : ℕ} {argv u : List ℕ} (L : Loaded T root n img h)
    (A : Args h argv strs) (hout : ∀ k ∈ argv, ¬ Foot T n k) (hv : v < n) (hm : Mine T v)
    (hbase : base = 4096 * v) (hpos : 0 < v) (hlen : ∀ str ∈ strs, str.length < 4096)
    (hsp : sp % 16 = 0) (h1 : base ≤ sp) (h2 : sp ≤ base + 4096) (hmax : u.length + argv.length ≤ MAXARG) :
    Ok E p (pushArgs root base argv sp u) (fun r h' => Kept T n h h' ∧ match r with
      | none => sp < base + argSize strs ∧ ∃ img', Loaded T root n img' h'
      | some (sp', ustack') => base + argSize strs ≤ sp ∧ sp' = sp - argSize strs ∧
          ustack' = u ++ argTops sp strs ∧ Loaded T root n (layArgs img sp strs) h') h := by
  induction argv generalizing sp u img h strs with
  | nil =>
    obtain rfl := forall₂_nil_left_iff.mp A
    refine ⟨Kept.refl _ _ _, ?_⟩
    exact ⟨by simpa [argSize] using h1, by simp [argSize], by simp [argTops], L⟩
  | cons arg argv ih =>
    obtain ⟨str, strs, ⟨c, hc, hstr⟩, tl, rfl⟩ := forall₂_cons_left_iff.mp A
    have hshort : str.length < 4096 := hlen _ mem_cons_self
    have hle := L.space.le
    obtain ⟨hpush, hup⟩ := push_eq (m := str.length + 1) hsp (by omega)
      (by simp only [RAMPAGES] at hle; omega)
    have hsize : argSize (str :: strs) = up16 (str.length + 1) + argSize strs := by
      simp [argSize]
    have hge : str.length + 1 ≤ up16 (str.length + 1) := by
      unfold up16
      omega
    rw [pushArgs, if_neg (by simp only [length_cons] at hmax; omega)]
    have hread : Ok E p (readStr arg) (fun s h' => s = str ∧ h' = h) h := by
      refine Safe.bind_read (readBytes_ok (o := 0) hc (by decide) PGSIZE) fun bytes hb => ?_
      exact ⟨by rw [hb, ← hstr, strOf], rfl⟩
    refine Safe.bind_read hread fun s hs => ?_
    rw [hs, hpush]
    dsimp only
    by_cases hlow : sp - up16 (str.length + 1) < base
    · rw [if_pos hlow]
      exact ⟨Kept.refl _ _ _, by omega, img, L⟩
    rw [if_neg hlow]
    refine Safe.bind (L.copyout_ok hv hm (by omega) ?_) ?_
    · rw [length_append, length_singleton]
      omega
    rintro ok h₁ ⟨rfl, L₁, K₁⟩
    rw [if_pos rfl]
    have hmod : (sp - up16 (str.length + 1)) % 16 = 0 := by
      unfold up16 at *
      omega
    have htl : Args h₁ argv strs :=
      Args.kept tl K₁ fun k hk => hout k (mem_cons_of_mem _ hk)
    have hnext := ih (u := u ++ [sp - up16 (str.length + 1)]) L₁ htl
      (fun k hk => hout k (mem_cons_of_mem _ hk))
      (fun s hs => hlen s (mem_cons_of_mem _ hs)) hmod (by omega) (by omega) (by
        simp only [length_append, length_cons, length_nil] at *
        omega)
    refine hnext.mono ?_
    rintro r h₂ ⟨K₂, hr⟩
    refine ⟨K₁.trans K₂, ?_⟩
    cases r with
    | none => exact ⟨by omega, hr.2⟩
    | some r =>
      obtain ⟨hfit, hsp', hus, L₂⟩ := hr
      refine ⟨by omega, by omega, ?_, L₂⟩
      rw [hus, append_assoc]
      rfl

/-! ### Where everything is -/

lemma argSize_cons (str : List UInt8) (strs : List (List UInt8)) :
    argSize (str :: strs) = up16 (str.length + 1) + argSize strs := by
  simp [argSize]

lemma le_up16 (n : ℕ) : n ≤ up16 n := by
  unfold up16
  omega

lemma length_argTops (sp : ℕ) (strs : List (List UInt8)) : (argTops sp strs).length = strs.length := by
  induction strs generalizing sp with
  | nil => rfl
  | cons str strs ih => rw [argTops, length_cons, length_cons, ih]

lemma layArgs_above (hfit : argSize strs ≤ sp) (ha : sp ≤ a) : layArgs img sp strs a = img a := by
  induction strs generalizing img sp with
  | nil => rfl
  | cons str strs ih =>
    rw [argSize_cons] at hfit
    have hup := le_up16 (str.length + 1)
    rw [layArgs, ih (by omega) (by omega)]
    refine if_neg fun hx => ?_
    rw [length_append, length_singleton] at hx
    omega

lemma layArgs_string (img : ℕ → UInt8) {i : ℕ} (hfit : argSize strs ≤ sp) (hsp : sp % 16 = 0) (hi : i < strs.length) :
    (argTops sp strs).getD i 0 % 16 = 0 ∧ sp - argSize strs ≤ (argTops sp strs).getD i 0 ∧
      (argTops sp strs).getD i 0 + (strs.getD i []).length + 1 ≤ sp ∧
      ∀ j ≤ (strs.getD i []).length,
        layArgs img sp strs ((argTops sp strs).getD i 0 + j) = (strs.getD i []).getD j 0 := by
  induction strs generalizing img sp i with
  | nil => exact absurd hi (Nat.not_lt_zero i)
  | cons str strs ih =>
    rw [argSize_cons] at hfit ⊢
    have hup := le_up16 (str.length + 1)
    have hmod : (sp - up16 (str.length + 1)) % 16 = 0 := by
      unfold up16 at *
      omega
    cases i with
    | zero =>
      simp only [argTops, getD_cons_zero, layArgs]
      refine ⟨hmod, by omega, by omega, fun j hj => ?_⟩
      have hin : sp - up16 (str.length + 1) ≤ sp - up16 (str.length + 1) + j ∧
          sp - up16 (str.length + 1) + j < sp - up16 (str.length + 1) + (str ++ [0]).length := by
        rw [length_append, length_singleton]
        omega
      rw [layArgs_above (by omega) (by omega), overlay, if_pos hin, Nat.add_sub_cancel_left]
      rcases Nat.lt_or_ge j str.length with hlt | hge
      · rw [getD_append _ _ _ _ hlt]
      · rw [getD_append_right _ _ _ _ hge, show j - str.length = 0 by omega,
          getD_cons_zero, getD_eq_default _ _ hge]
    | succ i =>
      simp only [argTops, getD_cons_succ, layArgs]
      obtain ⟨h1, h2, h3, h4⟩ := ih (overlay img (sp - up16 (str.length + 1)) (str ++ [0]))
        (i := i) (by omega) hmod (by simpa using hi)
      exact ⟨h1, by omega, by omega, h4⟩

lemma argTops_below {i j : ℕ} (hfit : argSize strs ≤ sp) (hsp : sp % 16 = 0) (hij : i < j)
    (hj : j < strs.length) :
    (argTops sp strs).getD j 0 + (strs.getD j []).length + 1 ≤ (argTops sp strs).getD i 0 := by
  induction strs generalizing sp i j with
  | nil => exact absurd hj (Nat.not_lt_zero j)
  | cons str strs ih =>
    rw [argSize_cons] at hfit
    have hup := le_up16 (str.length + 1)
    have hmod : (sp - up16 (str.length + 1)) % 16 = 0 := by
      unfold up16 at *
      omega
    obtain ⟨j, rfl⟩ : ∃ k, j = k + 1 := ⟨j - 1, by omega⟩
    have hj' : j < strs.length := by simpa using hj
    cases i with
    | zero =>
      simp only [argTops, getD_cons_zero, getD_cons_succ]
      exact (layArgs_string (fun _ => 0) (by omega) hmod hj').2.2.1
    | succ i =>
      simp only [argTops, getD_cons_succ]
      exact ih (by omega) hmod (by omega) hj'

/-! ### Words -/

/-- The `uint64` at address `a`. -/
def wordAt (img : ℕ → UInt8) (a : ℕ) : ℕ := number ((List.range 8).map fun b => img (a + b)) 0 8

lemma length_words (l : List ℕ) : (l.flatMap (numberBytes · 8)).length = 8 * l.length := by
  induction l with
  | nil => rfl
  | cons x l ih =>
    rw [flatMap_cons, length_append, ih, numberBytes, length_map, length_range,
      length_cons]
    omega

lemma drop_words (l : List ℕ) (i : ℕ) :
    (l.flatMap (numberBytes · 8)).drop (8 * i) = (l.drop i).flatMap (numberBytes · 8) := by
  induction l generalizing i with
  | nil => simp
  | cons x l ih =>
    cases i with
    | zero => rfl
    | succ i =>
      have hlen : (numberBytes x 8).length = 8 := by simp [numberBytes]
      rw [flatMap_cons, show 8 * (i + 1) = (numberBytes x 8).length + 8 * i by rw [hlen]; omega,
        drop_length_add_append, ih]
      rfl

lemma number_numberBytes (x k : ℕ) : number (numberBytes x k) 0 k = x % 256 ^ k := by
  unfold number numberBytes
  rw [drop_zero, take_of_length_le (by simp)]
  induction k generalizing x with
  | zero => simp [Nat.mod_one]
  | succ k ih =>
    rw [range_succ_eq_map, map_cons, foldr_cons, map_map]
    have htail : (List.range k).map ((fun i => UInt8.ofNat (x / 256 ^ i)) ∘ Nat.succ) =
        (List.range k).map fun i => UInt8.ofNat (x / 256 / 256 ^ i) := by
      refine map_congr_left fun i _ => ?_
      simp only [comp, Nat.succ_eq_add_one, pow_succ', Nat.div_div_eq_div_mul]
    have hlow : (UInt8.ofNat (x / 256 ^ 0)).toNat = x % 256 := by
      rw [pow_zero, Nat.div_one, UInt8.toNat_ofNat']
    rw [htail, ih, hlow, pow_succ', Nat.mod_mul]

lemma wordAt_overlay {l : List ℕ} {i : ℕ} (hi : i < l.length) (hlt : l.getD i 0 < 2 ^ 64) :
    wordAt (overlay img a (l.flatMap (numberBytes · 8))) (a + 8 * i) = l.getD i 0 := by
  have hbytes : (List.range 8).map (fun b => overlay img a (l.flatMap (numberBytes · 8)) (a + 8 * i + b)) =
      numberBytes (l.getD i 0) 8 := by
    refine map_congr_left fun b hb => ?_
    rw [mem_range] at hb
    have hin : a ≤ a + 8 * i + b ∧ a + 8 * i + b < a + (l.flatMap (numberBytes · 8)).length := by
      rw [length_words]
      omega
    have hdrop : (l.flatMap (numberBytes · 8)).getD (8 * i + b) 0 =
        ((l.drop i).flatMap (numberBytes · 8)).getD b 0 := by
      rw [← drop_words, getD_eq_getElem?_getD, getD_eq_getElem?_getD, List.getElem?_drop]
    rw [overlay, if_pos hin, show a + 8 * i + b - a = 8 * i + b by omega, hdrop,
      drop_eq_getElem_cons hi, flatMap_cons, getD_append _ _ _ _ (by simp [numberBytes, hb]),
      getD_eq_getElem _ _ hi]
    simp [numberBytes, hb]
  rw [wordAt, hbytes, number_numberBytes]
  exact Nat.mod_eq_of_lt hlt

/-! ### The stack of a program -/

/-- The strings and the array of pointers on the stack page below `sz`: the stack pointer and the
number of arguments, unless they do not fit. -/
def argStack (pagetable sz : ℕ) (argv : List ℕ) : Code (Option (ℕ × ℕ)) := do
  match ← pushArgs pagetable (sz - PGSIZE) argv sz [] with
  | none => return none
  | some (sp, ustack) =>
    let sp := push sp ((ustack.length + 1) * 8)
    if sp < sz - PGSIZE then
      return none
    else do
      let ok ← copyout pagetable sp ((ustack ++ [0]).flatMap (numberBytes · 8))
      if ok then return some (sp, ustack.length) else return none

lemma execStack_eq (pagetable sz : ℕ) (argv : List ℕ) (entry : ℕ) :
    execStack pagetable sz argv entry = (do
      let sz1 ← uvmalloc pagetable (pgRoundUp sz) (u64 (pgRoundUp sz + 2 * PGSIZE))
      if sz1 = 0 then
        execBad pagetable (pgRoundUp sz)
      else do
        uvmclear pagetable (sz1 - 2 * PGSIZE)
        match ← argStack pagetable sz1 argv with
        | none => execBad pagetable sz1
        | some (sp, argc) => return some ⟨pagetable, sz1, sp, argc, entry⟩) := by
  unfold execStack argStack
  refine congrArg _ (funext fun sz1 => ?_)
  split
  · rfl
  refine congrArg _ (funext fun _ => ?_)
  rw [bind_bind]
  refine congrArg _ (funext fun r => ?_)
  cases r with
  | none => rfl
  | some r =>
    obtain ⟨sp, ustack⟩ := r
    dsimp only
    split
    · rfl
    · rw [bind_bind]
      refine congrArg _ (funext fun ok => ?_)
      cases ok <;> rfl

/-- The room on the stack page that the arguments need. -/
def argRoom (strs : List (List UInt8)) : ℕ := argSize strs + up16 (8 * (strs.length + 1))

lemma argSize_mod (strs : List (List UInt8)) : argSize strs % 16 = 0 := by
  induction strs with
  | nil => rfl
  | cons str strs ih =>
    rw [argSize_cons]
    unfold up16
    omega

lemma argRoom_mod (strs : List (List UInt8)) : argRoom strs % 16 = 0 := by
  have := argSize_mod strs
  unfold argRoom up16
  omega

/-- How the arguments `strs` are laid out below `top`, with the stack pointer at `sp`. -/
structure ArgLayout (mem : ℕ → UInt8) (top sp : ℕ) (strs : List (List UInt8)) (ptrs : List ℕ) : Prop where
  aligned : sp % 16 = 0
  inside : top - PGSIZE ≤ sp
  count : ptrs.length = strs.length
  words : ∀ i < strs.length, wordAt mem (sp + 8 * i) = ptrs.getD i 0
  null : wordAt mem (sp + 8 * strs.length) = 0
  place : ∀ i < strs.length, ptrs.getD i 0 % 16 = 0 ∧ sp + 8 * (strs.length + 1) ≤ ptrs.getD i 0 ∧
    ptrs.getD i 0 + (strs.getD i []).length + 1 ≤ top
  string : ∀ i < strs.length, ∀ j ≤ (strs.getD i []).length,
    mem (ptrs.getD i 0 + j) = (strs.getD i []).getD j 0
  disjoint : ∀ i j, i < j → j < strs.length →
    ptrs.getD j 0 + (strs.getD j []).length + 1 ≤ ptrs.getD i 0

lemma ArgLayout.congr {mem mem' : ℕ → UInt8} {top : ℕ} {ptrs : List ℕ}
    (A : ArgLayout mem top sp strs ptrs) (hroom : sp + 8 * (strs.length + 1) ≤ top)
    (hmem : ∀ a, sp ≤ a → a < top → mem' a = mem a) : ArgLayout mem' top sp strs ptrs := by
  have hword : ∀ i ≤ strs.length, wordAt mem' (sp + 8 * i) = wordAt mem (sp + 8 * i) := by
    intro i hi
    unfold wordAt
    refine congrArg (number · 0 8) (map_congr_left fun b hb => ?_)
    rw [mem_range] at hb
    exact hmem _ (by omega) (by omega)
  refine { A with words := fun i hi => ?_, null := ?_, string := fun i hi j hj => ?_ }
  · rw [hword i hi.le]
    exact A.words i hi
  · rw [hword _ le_rfl]
    exact A.null
  · have hp := A.place i hi
    rw [hmem _ (by omega) (by omega)]
    exact A.string i hi j hj

lemma argLayout (hsp : sp % 16 = 0) (hlt : sp < 2 ^ 64) (hfit : sp - PGSIZE + argRoom strs ≤ sp) :
    ArgLayout (overlay (layArgs img sp strs) (sp - argRoom strs)
      ((argTops sp strs ++ [0]).flatMap (numberBytes · 8))) sp (sp - argRoom strs) strs
      (argTops sp strs) := by
  have hup := le_up16 (8 * (strs.length + 1))
  have hcount := length_argTops sp strs
  have hsize : argSize strs + 8 * (strs.length + 1) ≤ argRoom strs := by
    unfold argRoom
    omega
  have hroom : argRoom strs ≤ sp := by omega
  have hlen : ((argTops sp strs ++ [0]).flatMap (numberBytes · 8)).length = 8 * (strs.length + 1) := by
    rw [length_words, length_append, length_singleton, hcount]
  have hle : argSize strs ≤ sp := by omega
  have hstr := fun i (hi : i < strs.length) => layArgs_string img hle hsp hi
  refine ⟨?_, by omega, hcount, fun i hi => ?_, ?_, fun i hi => ?_, fun i hi j hj => ?_, fun i j hij hj => ?_⟩
  · have := argRoom_mod strs
    omega
  · have hget : (argTops sp strs ++ [0]).getD i 0 = (argTops sp strs).getD i 0 :=
      getD_append _ _ _ _ (by omega)
    rw [wordAt_overlay (by rw [length_append]; omega), hget]
    rw [hget]
    have := (hstr i hi).2.2.1
    omega
  · have hget : (argTops sp strs ++ [0]).getD strs.length 0 = 0 := by
      rw [getD_append_right _ _ _ _ (by omega), hcount, Nat.sub_self, getD_cons_zero]
    rw [wordAt_overlay (by rw [length_append, length_singleton]; omega), hget]
    rw [hget]
    decide
  · obtain ⟨h1, h2, h3, -⟩ := hstr i hi
    exact ⟨h1, by omega, h3⟩
  · obtain ⟨-, h2, h3, h4⟩ := hstr i hi
    rw [overlay, if_neg (by omega), h4 j hj]
  · exact argTops_below hle hsp hij hj

/-- User memory with the arguments on the stack. -/
def stackImage (img : ℕ → UInt8) (sz : ℕ) (strs : List (List UInt8)) : ℕ → UInt8 :=
  overlay (layArgs img sz strs) (sz - argRoom strs) ((argTops sz strs ++ [0]).flatMap (numberBytes · 8))

lemma layArgs_below (hfit : argSize strs ≤ sp) (ha : a < sp - argSize strs) : layArgs img sp strs a = img a := by
  induction strs generalizing img sp with
  | nil => rfl
  | cons str strs ih =>
    rw [argSize_cons] at hfit ha
    rw [layArgs, ih (by omega) (by omega)]
    exact if_neg (by omega)

lemma stackImage_below (hfit : argRoom strs ≤ sp) (ha : a < sp - argRoom strs) :
    stackImage img sp strs a = img a := by
  have hle : argSize strs ≤ argRoom strs := Nat.le_add_right _ _
  rw [stackImage, overlay, if_neg (by omega), layArgs_below (by omega) (by omega)]

/-- **What happens to the arguments.** They are on the stack page, or they do not fit. -/
theorem Loaded.argStack_ok {argv : List ℕ} (L : Loaded T root n img h) (A : Args h argv strs)
    (hout : ∀ k ∈ argv, ¬ Foot T n k) (hn : 2 ≤ n) (hm : Mine T (n - 1))
    (hlen : ∀ str ∈ strs, str.length < 4096) (hmax : argv.length < MAXARG) :
    Ok E p (argStack root (4096 * n) argv) (fun r h' => Kept T n h h' ∧ match r with
      | none => PGSIZE < argRoom strs ∧ ∃ img', Loaded T root n img' h'
      | some (sp, argc) => argRoom strs ≤ PGSIZE ∧ sp = 4096 * n - argRoom strs ∧ argc = strs.length ∧
          Loaded T root n (stackImage img (4096 * n) strs) h') h := by
  have hle := L.space.le
  have hcount : argv.length = strs.length := A.length_eq
  have hbase : 4096 * n - PGSIZE = 4096 * (n - 1) := by
    simp only [PGSIZE]
    omega
  unfold argStack
  rw [hbase]
  generalize hz : 4096 * n = sz
  generalize hb : 4096 * (n - 1) = base
  refine Safe.bind (L.pushArgs_ok A hout (by omega) hm hb.symm (by omega) hlen (by omega) (by omega)
    (by omega) (by simpa using hmax.le)) ?_
  rintro r h₁ ⟨K₁, hr⟩
  have hup := le_up16 (8 * (strs.length + 1))
  have hroom : argRoom strs = argSize strs + up16 (8 * (strs.length + 1)) := rfl
  cases r with
  | none =>
    obtain ⟨hbig, hL⟩ := hr
    refine ⟨K₁, ?_, hL⟩
    simp only [PGSIZE]
    omega
  | some r =>
    obtain ⟨sp, ustack⟩ := r
    obtain ⟨hfit, rfl, rfl, L₁⟩ := hr
    rw [nil_append]
    dsimp only
    have hmod : (sz - argSize strs) % 16 = 0 := by
      have := argSize_mod strs
      omega
    have hbig : 8 * (strs.length + 1) ≤ sz - argSize strs := by
      simp only [MAXARG] at hmax
      omega
    obtain ⟨hpush, hend⟩ := push_eq hmod hbig (by simp only [RAMPAGES] at hle; omega)
    have hlay : sz - argSize strs - up16 (8 * (strs.length + 1)) = sz - argRoom strs := by omega
    rw [length_argTops, Nat.mul_comm (strs.length + 1) 8, hpush, hlay]
    by_cases hlow : sz - argRoom strs < base
    · rw [if_pos hlow]
      refine ⟨K₁, ?_, _, L₁⟩
      simp only [PGSIZE]
      omega
    rw [if_neg hlow]
    have hwords : ((argTops sz strs ++ [0]).flatMap (numberBytes · 8)).length = 8 * (strs.length + 1) := by
      rw [length_words, length_append, length_singleton, length_argTops]
    refine Safe.bind (L₁.copyout_ok (by omega) hm (by omega) (by omega)) ?_
    rintro ok h₂ ⟨rfl, L₂, K₂⟩
    rw [if_pos rfl]
    refine ⟨K₁.trans K₂, ?_, rfl, rfl, L₂⟩
    simp only [PGSIZE]
    omega

end Xv6.Vm
