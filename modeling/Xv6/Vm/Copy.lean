import Xv6.Vm.Uvm

/-!
Copies between the kernel and a user address space, for any way to know what `walkaddr` finds.

`frame a` is the page of physical memory that the user page at `a` is in, or `0`. The loops of
`copyout`, `copyin` and `copyinstr` are followed once, whether the one who runs them is alone
or owns some pages among others.
-/

namespace Xv6.Vm

open Lib.Bytes Lib.Wp Lib.Conc Lib.Conc.Prog Function List

variable {frame : ℕ → ℕ} {mem : ℕ → Page} {va a q o : ℕ} {src : List UInt8}

lemma pgRoundDown_add_mod (a : ℕ) : pgRoundDown a + a % 4096 = a := by
  simp only [pgRoundDown, PGSIZE]
  omega

lemma pgRoundDown_add (a n : ℕ) (h : a % 4096 + n < 4096) : pgRoundDown (a + n) = pgRoundDown a := by
  simp only [pgRoundDown, PGSIZE]
  omega

/-! ### User memory -/

/-- The byte at user address `a`. -/
def getUser (frame : ℕ → ℕ) (mem : ℕ → Page) (a : ℕ) : UInt8 :=
  byte (mem (frame (pgRoundDown a))) (a % 4096)

/-- The page with one byte changed. -/
def setByte (c : Page) (o : ℕ) (b : UInt8) : Page := copy c o 1 fun _ => b

lemma copy_one (c : Page) (o : ℕ) (src : ℕ → UInt8) : copy c o 1 src = setByte c o (src 0) := by
  funext i
  simp only [setByte, copy]
  split
  · rw [show (i : ℕ) - o = 0 by omega]
  · rfl

/-- Memory with `src` stored from user address `va` on. -/
def putUser (frame : ℕ → ℕ) (mem : ℕ → Page) : ℕ → List UInt8 → ℕ → Page
  | _, [] => mem
  | va, b :: src =>
    putUser frame (update mem (frame (pgRoundDown va))
      (setByte (mem (frame (pgRoundDown va))) (va % 4096) b)) (va + 1) src

lemma putUser_append (va : ℕ) (xs ys : List UInt8) : putUser frame mem va (xs ++ ys) =
    putUser frame (putUser frame mem va xs) (va + xs.length) ys := by
  induction xs generalizing mem va with
  | nil => rfl
  | cons b xs ih =>
    rw [cons_append, putUser, putUser, ih, length_cons]
    congr 1
    omega

lemma putUser_page (va : ℕ) (src : List UInt8) (h : va % 4096 + src.length ≤ 4096) :
    putUser frame mem va src = update mem (frame (pgRoundDown va))
      (copy (mem (frame (pgRoundDown va))) (va % 4096) src.length fun i => src.getD i 0) := by
  induction src generalizing mem va with
  | nil => rw [putUser, length_nil, copy_zero, update_eq_self]
  | cons b src ih =>
    rw [length_cons] at h
    rw [putUser]
    cases src with
    | nil =>
      rw [length_singleton, copy_one]
      rfl
    | cons b' src =>
      have hpage : pgRoundDown (va + 1) = pgRoundDown va :=
        pgRoundDown_add va 1 (by rw [length_cons] at h; omega)
      have hmod : (va + 1) % 4096 = va % 4096 + 1 := by
        rw [length_cons] at h
        omega
      rw [ih (va + 1) (by omega), hpage, hmod, update_self, update_idem]
      congr 1
      have hsplit := copy_add (mem (frame (pgRoundDown va))) (va % 4096) 1 (b' :: src).length
        fun i => (b :: b' :: src).getD i 0
      rw [copy_one, Nat.add_comm 1 (b' :: src).length] at hsplit
      refine Eq.trans ?_ hsplit
      congr 1
      funext i
      rw [Nat.add_comm 1 i, getD_cons_succ]

lemma putUser_take (va : ℕ) {k n : ℕ} (hk : k ≤ src.length) (hn : (va + k) % 4096 + n ≤ 4096) :
    putUser frame mem va (src.take (k + n)) =
      update (putUser frame mem va (src.take k)) (frame (pgRoundDown (va + k)))
        (copy (putUser frame mem va (src.take k) (frame (pgRoundDown (va + k)))) ((va + k) % 4096)
          ((src.drop k).take n).length fun i => ((src.drop k).take n).getD i 0) := by
  have hlen : (src.take k).length = k := length_take_of_le hk
  rw [take_add, putUser_append, hlen]
  refine putUser_page (va + k) _ ?_
  rw [length_take]
  omega

lemma byte_putUser_other
    (h : ∀ i < src.length, ¬ (frame (pgRoundDown (va + i)) = q ∧ (va + i) % 4096 = o)) :
    byte (putUser frame mem va src q) o = byte (mem q) o := by
  induction src generalizing mem va with
  | nil => rfl
  | cons b src ih =>
    rw [putUser, ih]
    · have h0 := h 0 (Nat.succ_pos _)
      rw [Nat.add_zero] at h0
      by_cases hq : q = frame (pgRoundDown va)
      · rw [hq, update_self, setByte, byte_copy_out]
        intro hin
        exact h0 ⟨hq.symm, by omega⟩
      · rw [update_of_ne hq]
    · intro i hi
      have := h (i + 1) (Nat.succ_lt_succ hi)
      rwa [Nat.add_comm i 1, ← Nat.add_assoc] at this

/-- A user byte of the range, where user pages are in different pages of memory. -/
lemma getUser_putUser (mem : ℕ → Page) (hinj : ∀ i < src.length,
      frame (pgRoundDown (va + i)) = frame (pgRoundDown a) → pgRoundDown (va + i) = pgRoundDown a) :
    getUser frame (putUser frame mem va src) a =
      if va ≤ a ∧ a < va + src.length then src.getD (a - va) 0 else getUser frame mem a := by
  have hmod : a % 4096 < 4096 := Nat.mod_lt _ (by decide)
  induction src generalizing mem va with
  | nil => rw [if_neg (by simp only [length_nil]; omega)]; rfl
  | cons b src ih =>
    rw [putUser, ih]
    · by_cases hin : va + 1 ≤ a ∧ a < va + 1 + src.length
      · rw [if_pos hin, if_pos (by simp only [length_cons]; omega),
          show a - va = (a - (va + 1)) + 1 by omega, getD_cons_succ]
      · rw [if_neg hin]
        by_cases ha : a = va
        · rw [if_pos (by simp only [length_cons]; omega), ha, Nat.sub_self, getD_cons_zero,
            getUser, update_self, setByte, byte_copy_in _ _ (show va % 4096 < 4096 by omega) le_rfl (by omega)]
        · rw [if_neg (by simp only [length_cons]; omega), getUser, getUser]
          by_cases hf : frame (pgRoundDown a) = frame (pgRoundDown va)
          · have hpage := hinj 0 (Nat.succ_pos _) (by rw [Nat.add_zero]; exact hf.symm)
            rw [Nat.add_zero] at hpage
            have h1 := pgRoundDown_add_mod a
            have h2 := pgRoundDown_add_mod va
            rw [hf, update_self, setByte, byte_copy_out _ _ (by omega)]
          · rw [update_of_ne hf]
    · intro i hi
      have := hinj (i + 1) (Nat.succ_lt_succ hi)
      rwa [Nat.add_comm i 1, ← Nat.add_assoc] at this

/-- The user bytes of a range. -/
def userBytes (frame : ℕ → ℕ) (mem : ℕ → Page) (va n : ℕ) : List UInt8 :=
  (List.range n).map fun i => getUser frame mem (va + i)

lemma userBytes_add (va m n : ℕ) : userBytes frame mem va (m + n) =
    userBytes frame mem va m ++ userBytes frame mem (va + m) n := by
  simp only [userBytes, range_add, map_append, map_map]
  congr 1
  refine map_congr_left fun i _ => ?_
  simp only [comp, Nat.add_assoc]

/-! ### The loops -/

section Loops

variable {ι L : Type} [DecidableEq ι] {I : Phys → (ι → L) → Prop} {turn : ι → Phys → Prop}
  {view : ι → Phys → Phys} {E : Stop → Phys → Prop} {p : ι} {root len max : ℕ}

/-- How far a copy of `len` bytes from `va` on got: all of it, or up to the first page that is not
accessible. -/
structure Reached (frame : ℕ → ℕ) (va len k : ℕ) (ok : Bool) : Prop where
  le : k ≤ len
  done : ∀ i < k, frame (pgRoundDown (va + i)) ≠ 0
  all : ok = true → k = len
  stop : ok = false → k < len ∧ frame (pgRoundDown (va + k)) = 0 ∧ (k = 0 ∨ (va + k) % 4096 = 0)

lemma Reached.ok_iff {k : ℕ} {ok : Bool} (h : Reached frame va len k ok) :
    ok = true ↔ ∀ i < len, frame (pgRoundDown (va + i)) ≠ 0 := by
  constructor
  · intro hok
    rw [← h.all hok]
    exact h.done
  · intro hall
    cases hok : ok with
    | true => rfl
    | false =>
      obtain ⟨hlt, hzero, -⟩ := h.stop hok
      exact absurd hzero (hall k hlt)

/-- The number of bytes that a round can copy. -/
def chunk (va left : ℕ) : ℕ := min (PGSIZE - (va - pgRoundDown va)) left

lemma chunk_le (va left : ℕ) : va % 4096 + chunk va left ≤ 4096 := by
  simp only [chunk, pgRoundDown, PGSIZE]
  omega

lemma chunk_le_left (va left : ℕ) : chunk va left ≤ left := Nat.min_le_right _ _

lemma chunk_pos (va : ℕ) {left : ℕ} (h : 0 < left) : 0 < chunk va left := by
  simp only [chunk, pgRoundDown, PGSIZE]
  omega

lemma chunk_next (va : ℕ) {left : ℕ} (h : chunk va left < left) :
    va + chunk va left = pgRoundDown va + 4096 := by
  simp only [chunk, pgRoundDown, PGSIZE] at *
  omega

lemma chunk_page (va left : ℕ) {i : ℕ} (hi : i < chunk va left) :
    pgRoundDown (va + i) = pgRoundDown va := by
  have := chunk_le va left
  exact pgRoundDown_add va i (by omega)

lemma sub_pgRoundDown (va : ℕ) : va - pgRoundDown va = va % 4096 := by
  simp only [pgRoundDown, PGSIZE]
  omega

/-- The rounds that are left to a loop over user pages which has copied `k` bytes. -/
def roundsLeft (va k : ℕ) : ℕ := if k = 0 then 2 ^ 26 + 1 else 2 ^ 26 - (va + k - 1) / 4096

lemma roundsLeft_zero (va : ℕ) : roundsLeft va 0 < rounds := by
  rw [roundsLeft, if_pos rfl]
  decide

lemma roundsLeft_chunk {k left : ℕ} (hleft : 0 < left) (hmax : pgRoundDown (va + k) < MAXVA)
    (hstart : k = 0 ∨ (va + k) % 4096 = 0) :
    roundsLeft va (k + chunk (va + k) left) < roundsLeft va k := by
  have hpos := chunk_pos (va + k) hleft
  have hpage := chunk_le (va + k) left
  have hround := pgRoundDown_add_mod (va + k)
  have hmod : pgRoundDown (va + k) % 4096 = 0 := by
    simp only [pgRoundDown, PGSIZE]
    omega
  have hmaxva : MAXVA = 2 ^ 38 := by decide
  rw [roundsLeft, roundsLeft, if_neg (by omega)]
  split
  · omega
  · have := hstart.resolve_left (by omega)
    omega

lemma next_page (va k left : ℕ) (hmore : chunk (va + k) left < left)
    (hmax : pgRoundDown (va + k) < MAXVA) :
    u64 (pgRoundDown (va + k) + PGSIZE) = va + (k + chunk (va + k) left) ∧
      (k + chunk (va + k) left = 0 ∨ (va + (k + chunk (va + k) left)) % 4096 = 0) := by
  have hnext := chunk_next (va + k) hmore
  have hmod : pgRoundDown (va + k) % 4096 = 0 := by
    simp only [pgRoundDown, PGSIZE]
    omega
  have hmaxva : MAXVA = 2 ^ 38 := by decide
  simp only [u64, PGSIZE]
  omega

lemma done_chunk {k left : ℕ} (hdone : ∀ i < k, frame (pgRoundDown (va + i)) ≠ 0)
    (hk : frame (pgRoundDown (va + k)) ≠ 0) {i : ℕ} (hi : i < k + chunk (va + k) left) :
    frame (pgRoundDown (va + i)) ≠ 0 := by
  by_cases hik : i < k
  · exact hdone i hik
  · have := chunk_page (va + k) left (i := i - k) (by omega)
    rw [show va + k + (i - k) = va + i by omega] at this
    rw [this]
    exact hk

/-- **What `copyout` does**, where `J k` says that `k` bytes were stored. -/
theorem copyout_safe (J : ℕ → L → Prop) {l : L} (hframe : ∀ a, frame a ≠ 0 → a < MAXVA)
    (h0 : J 0 l)
    (hwalk : ∀ k l, J k l → ∀ a, Safe I turn view E p (walkaddr root a)
      (fun r l' => r = frame a ∧ l' = l) l)
    (hwrite : ∀ k l, J k l → k < src.length → frame (pgRoundDown (va + k)) ≠ 0 →
      Safe I turn view E p (writeBytes (frame (pgRoundDown (va + k)) + (va + k) % 4096)
        ((src.drop k).take (chunk (va + k) (src.length - k))))
        (fun _ l' => J (k + chunk (va + k) (src.length - k)) l') l) :
    Safe I turn view E p (copyout root va src)
      (fun ok l' => ∃ k, J k l' ∧ Reached frame va src.length k ok) l := by
  -- a round is at the start or at the beginning of a page
  refine safe_loop (fun n cur l' => ∃ k, n = roundsLeft va k ∧ J k l' ∧ k ≤ src.length ∧
      cur.2 = src.drop k ∧ (∀ i < k, frame (pgRoundDown (va + i)) ≠ 0) ∧
      (k < src.length → cur.1 = va + k ∧ (k = 0 ∨ (va + k) % 4096 = 0)))
    ⟨0, rfl, h0, Nat.zero_le _, rfl, fun i hi => absurd hi (by omega), fun _ => ⟨rfl, .inl rfl⟩⟩
    (roundsLeft_zero va) ?_
  rintro n ⟨cur, rest⟩ l' ⟨k, rfl, hJ, hle, hrest, hdone, hcur⟩
  simp only at hrest hcur
  rw [outStep]
  by_cases hend : rest = []
  · rw [if_pos hend]
    have hk : k = src.length := by
      rw [hrest, drop_eq_nil_iff] at hend
      omega
    exact ⟨k, hJ, hle, hdone, fun _ => hk, fun h => by cases h⟩
  rw [if_neg hend]
  have hlt : k < src.length := by
    by_contra hge
    exact hend (by rw [hrest]; exact drop_eq_nil_of_le (by omega))
  obtain ⟨rfl, hstart⟩ := hcur hlt
  refine Safe.bind (hwalk k l' hJ _) ?_
  rintro r l'' ⟨rfl, rfl⟩
  by_cases hzero : frame (pgRoundDown (va + k)) = 0
  · rw [if_pos hzero]
    exact ⟨k, hJ, hle, hdone, fun h => (by cases h), fun _ => ⟨hlt, hzero, hstart⟩⟩
  rw [if_neg hzero]
  have hmax := hframe _ hzero
  have hchunk : min (PGSIZE - (va + k) % 4096) (src.drop k).length =
      chunk (va + k) (src.length - k) := by rw [length_drop, chunk, sub_pgRoundDown]
  simp only [sub_pgRoundDown, hrest, hchunk]
  refine Safe.bind (hwrite k l'' hJ hlt hzero) ?_
  intro _ l₃ hJ'
  have hleft := chunk_le_left (va + k) (src.length - k)
  refine ⟨_, roundsLeft_chunk (by omega) hmax hstart, _, rfl, hJ', by omega, ?_,
    fun i hi => done_chunk hdone hzero hi, fun hmore => next_page va k _ (by omega) hmax⟩
  simp only [drop_drop]

/-- How `copyinstr` ends: at the first byte of 0, or with nothing but other bytes until the next page
is not accessible or the buffer is full. -/
structure StrReached (frame : ℕ → ℕ) (mem : ℕ → Page) (va max k : ℕ) (ok : Bool) : Prop where
  le : k ≤ max
  done : ∀ i < k, frame (pgRoundDown (va + i)) ≠ 0 ∧ getUser frame mem (va + i) ≠ 0
  null : ok = true → k < max ∧ frame (pgRoundDown (va + k)) ≠ 0 ∧ getUser frame mem (va + k) = 0
  stop : ok = false → k = max ∨ frame (pgRoundDown (va + k)) = 0

lemma userBytes_succ (va n : ℕ) : userBytes frame mem va (n + 1) =
    getUser frame mem va :: userBytes frame mem (va + 1) n := by
  rw [Nat.add_comm, userBytes_add]
  rfl

lemma takeWhile_userBytes {n : ℕ} (h : 0 ∈ userBytes frame mem va n) :
    ∃ k < n, (userBytes frame mem va n).takeWhile (· ≠ 0) = userBytes frame mem va k ∧
      getUser frame mem (va + k) = 0 ∧ ∀ i < k, getUser frame mem (va + i) ≠ 0 := by
  induction n generalizing va with
  | zero => simp [userBytes] at h
  | succ n ih =>
    rw [userBytes_succ] at h ⊢
    by_cases h0 : getUser frame mem va = 0
    · refine ⟨0, Nat.succ_pos n, ?_, h0, fun i hi => absurd hi (by omega)⟩
      rw [takeWhile_cons_of_neg (by simpa using h0)]
      rfl
    · have hin : 0 ∈ userBytes frame mem (va + 1) n :=
        (mem_cons.mp h).resolve_left fun he => h0 he.symm
      obtain ⟨k, hk, htake, hnull, hbefore⟩ := ih hin
      refine ⟨k + 1, by omega, ?_, ?_, fun i hi => ?_⟩
      · rw [takeWhile_cons_of_pos (by simpa using h0), htake, userBytes_succ]
      · rw [← hnull, Nat.add_assoc, Nat.add_comm 1 k]
      · cases i with
        | zero => exact h0
        | succ i =>
          have := hbefore i (by omega)
          rwa [Nat.add_assoc, Nat.add_comm 1 i] at this

lemma mem_userBytes {n : ℕ} (h : 0 ∉ userBytes frame mem va n) {i : ℕ} (hi : i < n) :
    getUser frame mem (va + i) ≠ 0 := by
  intro h0
  refine h (mem_map.mpr ⟨i, mem_range.mpr hi, h0⟩)

section

variable {l : L} (hframe : ∀ a, frame a ≠ 0 → a < MAXVA)
  (hwalk : ∀ a, Safe I turn view E p (walkaddr root a) (fun r l' => r = frame a ∧ l' = l) l)
  (hread : ∀ a n, a % 4096 + n ≤ 4096 → frame (pgRoundDown a) ≠ 0 →
    Safe I turn view E p (readBytes (frame (pgRoundDown a) + a % 4096) n)
      (fun bytes l' => bytes = userBytes frame mem a n ∧ l' = l) l)

include hframe hwalk hread

/-- **What `copyinstr` does.** -/
theorem copyinstr_safe :
    Safe I turn view E p (copyinstr root va max) (fun r l' => l' = l ∧
      ∃ k, r.2 = userBytes frame mem va k ∧ StrReached frame mem va max k r.1) l := by
  refine safe_loop (fun n cur l' => ∃ k, n = roundsLeft va k ∧ l' = l ∧ k ≤ max ∧
      cur.2 = (max - k, userBytes frame mem va k) ∧
      (∀ i < k, frame (pgRoundDown (va + i)) ≠ 0 ∧ getUser frame mem (va + i) ≠ 0) ∧
      (k < max → cur.1 = va + k ∧ (k = 0 ∨ (va + k) % 4096 = 0)))
    ⟨0, rfl, rfl, Nat.zero_le _, rfl, fun i hi => absurd hi (by omega), fun _ => ⟨rfl, .inl rfl⟩⟩
    (roundsLeft_zero va) ?_
  rintro n ⟨cur, rest⟩ l' ⟨k, rfl, rfl, hle, hrest, hdone, hcur⟩
  obtain rfl : rest = _ := hrest
  rw [strStep]
  simp only
  by_cases hend : max - k = 0
  · rw [if_pos hend]
    exact ⟨rfl, k, rfl, hle, hdone, fun h => (by cases h), fun _ => .inl (by omega)⟩
  rw [if_neg hend]
  have hlt : k < max := by omega
  obtain ⟨rfl, hstart⟩ := hcur hlt
  refine Safe.bind (hwalk _) ?_
  rintro r l'' ⟨rfl, rfl⟩
  by_cases hzero : frame (pgRoundDown (va + k)) = 0
  · rw [if_pos hzero]
    exact ⟨rfl, k, rfl, hle, hdone, fun h => (by cases h), fun _ => .inr hzero⟩
  rw [if_neg hzero]
  have hmax := hframe _ hzero
  have hchunk : min (PGSIZE - (va + k) % 4096) (max - k) = chunk (va + k) (max - k) := by
    rw [chunk, sub_pgRoundDown]
  simp only [sub_pgRoundDown, hchunk]
  refine Safe.bind (hread (va + k) _ (chunk_le _ _) hzero) ?_
  rintro _ l₃ ⟨rfl, rfl⟩
  have hleft := chunk_le_left (va + k) (max - k)
  have hpage : ∀ i < k + chunk (va + k) (max - k), frame (pgRoundDown (va + i)) ≠ 0 :=
    fun i hi => done_chunk (fun i hi => (hdone i hi).1) hzero hi
  by_cases hin : 0 ∈ userBytes frame mem (va + k) (chunk (va + k) (max - k))
  · rw [if_pos hin]
    obtain ⟨j, hj, htake, hnull, hbefore⟩ := takeWhile_userBytes hin
    refine ⟨rfl, k + j, ?_, by omega, fun i hi => ⟨hpage i (by omega), ?_⟩, fun _ => ⟨by omega,
      hpage _ (by omega), by rw [← Nat.add_assoc]; exact hnull⟩, fun h => by cases h⟩
    · rw [htake, userBytes_add]
    · by_cases hik : i < k
      · exact (hdone i hik).2
      · have := hbefore (i - k) (by omega)
        rwa [show va + k + (i - k) = va + i by omega] at this
  · rw [if_neg hin]
    refine ⟨_, roundsLeft_chunk (by omega) hmax hstart, k + chunk (va + k) (max - k), rfl, rfl,
      by omega, ?_, fun i hi => ⟨hpage i hi, ?_⟩, fun hmore => next_page va k _ (by omega) hmax⟩
    · rw [userBytes_add, Nat.sub_sub]
    · by_cases hik : i < k
      · exact (hdone i hik).2
      · have := mem_userBytes hin (i := i - k) (by omega)
        rwa [show va + k + (i - k) = va + i by omega] at this

end

end Loops

end Xv6.Vm
