import Xv6.Malloc.FreeList

/-!
What `malloc` does to the heap.
-/

namespace Xv6.Malloc

open Lib.Wp Lib.Chain Lib.Spans List

variable {base k p n : ℕ} {answer : List Span → Option ℕ} {h h' : Heap}
  {l l' live l₁ l₂ : List Block} {b x y : Block}

/-- The memory that `malloc(n)` asks `sbrk` for. -/
def bytes (n : ℕ) : ℕ := 16 * if units n < 4096 then 4096 else units n

/-- What `sbrk` answers to `malloc(n)` leaves the heap in order: the number of bytes is not cut
off, blocks stay aligned, no block touches `base` from below, and sizes stay within a `uint`. -/
def Orderly (base n : ℕ) (answer : List Span → Option ℕ) : Prop :=
  ∀ memory a, answer memory = some a →
    n ≤ 2 ^ 32 - 32 ∧ a % 16 = 0 ∧ a + bytes n ≠ base ∧
    (memory.map Span.length).sum + bytes n < 2 ^ 36

lemma units_pos (n : ℕ) : 0 < units n := Nat.succ_pos _

lemma toInt_bytes (hn : n ≤ 2 ^ 32 - 32) (hpos : 0 ≤ toInt (bytes n)) :
    (toInt (bytes n)).toNat = bytes n := by
  have hlt : bytes n < 2 ^ 32 := by
    unfold bytes units
    split <;> omega
  unfold toInt at hpos ⊢
  rw [Nat.mod_eq_of_lt hlt] at hpos ⊢
  split at hpos
  · rw [if_pos ‹_›, Int.toNat_natCast]
  · omega

namespace Rep

lemma addr_pos (hr : Rep base h l live) (hbase : 0 < base) {a : ℕ} (ha : a ∈ l.map Block.addr) :
    0 < a := by
  obtain ⟨x, hx, rfl⟩ := mem_map.mp ha
  rcases hr.pool.fine x (mem_append_left _ hx) with rfl | hfine
  · exact hbase
  · exact hfine.addr_pos

lemma add (hr : Rep base h l live) (hb : Fine base b) (hnew : IsNew base h b.span) :
    Rep base ({ h with memory := b.span :: h.memory }.setSize b.addr b.size) l (b :: live) :=
  ⟨(hr.pool.add hb hnew).perm perm_middle.symm, hr.ring.congr fun _ _ => Heap.next_setSize ..,
    hr.base_mem, hr.sorted, hr.freep⟩

/-- **`morecore`** either gets no memory, or gets enough of it. -/
lemma morecore (hr : Rep base h l live) (hbase : 0 < base) (hok : Orderly base n answer)
    (hk : l.length ≤ k) :
    wp (Malloc.morecore base answer k (units n)) (fun p h' => (p = 0 ∧ h' = h) ∨
      (p ≠ 0 ∧ p = h'.freep ∧ h'.total < 2 ^ 36 ∧
        ∃ l', Rep base h' l' live ∧ (∃ x ∈ l', units n ≤ x.size) ∧ l'.length ≤ l.length + 1))
      (fun e _ => e = .notNew) h := by
  unfold Malloc.morecore Malloc.sbrk
  simp only [wp_bind, wp_get]
  cases ha : answer h.memory with
  | none => exact .inl ⟨rfl, rfl⟩
  | some a =>
    obtain ⟨hn, halign, htouch, htotal⟩ := hok _ _ ha
    set nu := if units n < 4096 then 4096 else units n with hnu
    have hbytes : nu * 16 = bytes n := Nat.mul_comm ..
    have hle : units n ≤ nu := by
      rw [hnu]
      split <;> omega
    dsimp only
    rw [hbytes]
    refine wp_ite (fun hc => ?_) fun _ => rfl
    obtain ⟨hpos, hnew⟩ := hc
    rw [toInt_bytes hn hpos] at hnew ⊢
    have hspan : (⟨a, a + bytes n⟩ : Span) = (⟨a, nu⟩ : Block).span := rfl
    rw [hspan] at hnew ⊢
    have hfine : Fine base ⟨a, nu⟩ := by
      have hpos := units_pos n
      refine ⟨show 0 < nu by omega, hnew.1, halign, ?_⟩
      have h1 : a + bytes n ≤ base ∨ base + 16 ≤ a := hnew.2 ⟨base, base + 16⟩ (by simp)
      change a + bytes n < base ∨ base + 16 ≤ a
      omega
    have hadd := hr.add hfine hnew
    have hsmall' : ({ h with memory := (⟨a, nu⟩ : Block).span :: h.memory }.setSize a nu).total <
        2 ^ 36 := by
      have hlen : (⟨a, nu⟩ : Block).span.length = bytes n := Nat.add_sub_cancel_left ..
      change ((⟨a, nu⟩ : Block).span.length :: h.memory.map Span.length).sum < _
      rw [sum_cons, hlen, Nat.add_comm]
      exact htotal
    obtain ⟨h', l', hrun, hr', ⟨x, hx, hnx⟩, hmem, hlen⟩ := hadd.free hk hsmall'
    simp only [wp_bind, wp_set, wp_pure, wp_modify]
    refine wp_of_eq hrun ?_
    rw [wp_get]
    refine .inr ⟨?_, rfl, ?_, l', hr', ⟨x, hx, Nat.le_trans hle hnx⟩, hlen⟩
    · exact Nat.pos_iff_ne_zero.mp (hr'.addr_pos hbase hr'.freep)
    · rw [Heap.total, hmem]
      exact hsmall'

lemma carve (hr : Rep base h l live) (hx : x ∈ l) (hp : p ∈ l.map Block.addr)
    (hnext : h.next p = x.addr) (hn : 0 < n) (hfit : n ≤ x.size) :
    ∃ b l', (Malloc.carve n p x.addr h).1 = b.addr + 16 ∧ b.size = n ∧
      Rep base (Malloc.carve n p x.addr h).2 l' (b :: live) ∧
      (Malloc.carve n p x.addr h).2.memory = h.memory := by
  have hsize : (h.hdr x.addr).size = x.size := hr.pool.size_eq x (mem_append_left _ hx)
  have hne : x ≠ ⟨base, 0⟩ := by
    rintro rfl
    exact absurd hfit (Nat.not_le_of_lt hn)
  obtain ⟨l₁, l₂, rfl⟩ := append_of_mem hx
  unfold Malloc.carve
  rw [hsize]
  by_cases heq : x.size = n
  · rw [if_pos heq]
    exact ⟨x, l₁ ++ l₂, rfl, heq, hr.unlink hne hp hnext, rfl⟩
  · rw [if_neg heq]
    have hcut := hr.cut hne hn (Nat.lt_of_le_of_ne hfit (Ne.symm heq))
    have hself : ((h.setSize x.addr (x.size - n)).hdr x.addr).size = x.size - n := by
      rw [Heap.setSize_eq, Heap.setHdr_self]
    dsimp only
    rw [hself]
    refine ⟨⟨x.addr + 16 * (x.size - n), n⟩, _, rfl, rfl, hcut.setFreep ?_, rfl⟩
    simpa using hp

end Rep

/-- The loop of `malloc` takes the first block that is large enough, or comes back to `freep`. -/
lemma search_walk {c : List ℕ} {Q : ℕ → Heap → Prop} {E : Halt → Heap → Prop}
    (hpath : Path h.next p c h.freep) (hnot : h.freep ∉ c) (hk : c.length < k)
    (hfit : ∀ q ∈ p :: c, n ≤ (h.hdr (h.next q)).size →
      Q (carve n q (h.next q) h).1 (carve n q (h.next q) h).2)
    (hmore : (∀ a ∈ c ++ [h.freep], (h.hdr a).size < n) →
      wp (morecore base answer (k - c.length - 1) n) (fun p h' => if p = 0 then Q 0 h' else
        wp (search base answer n (k - c.length - 1) p (h'.next p)) Q E h') E h) :
    wp (search base answer n k p (h.next p)) Q E h := by
  induction c generalizing p k with
  | nil =>
    obtain ⟨k, rfl⟩ : ∃ j, k = j + 1 := ⟨k - 1, by omega⟩
    have hnext : h.next p = h.freep := hpath
    rw [search, wp_bind, wp_get]
    refine wp_ite (hfit p (by simp)) fun hsmall => wp_ite (fun _ => ?_) fun hne => ?_
    · rw [wp_bind]
      refine wp_mono (hmore ?_) (fun q h' hq => ?_) fun _ _ he => he
      · intro a ha
        rw [nil_append, mem_singleton] at ha
        rw [ha, ← hnext]
        omega
      · refine wp_ite (fun h0 => ?_) fun h0 => ?_
        · rwa [if_pos h0] at hq
        · rw [if_neg h0] at hq
          rw [wp_bind, wp_get]
          exact hq
    · exact absurd hnext hne
  | cons d c ih =>
    obtain ⟨k, rfl⟩ : ∃ j, k = j + 1 := ⟨k - 1, by omega⟩
    rw [length_cons] at hk
    have hnext : h.next p = d := hpath.1
    rw [search, wp_bind, wp_get]
    refine wp_ite (hfit p (by simp)) fun hsmall => wp_ite (fun heq => ?_) fun _ => ?_
    · exact absurd (by simp [← heq, hnext]) hnot
    · rw [hnext]
      refine ih hpath.2 (fun hmem => hnot (by simp [hmem])) (by omega)
        (fun q hq => hfit q (mem_cons_of_mem _ hq)) fun hall => ?_
      have hlen : k + 1 - (d :: c).length - 1 = k - c.length - 1 := by
        rw [length_cons]
        omega
      rw [hlen] at hmore
      refine hmore fun a ha => ?_
      rcases mem_cons.mp ha with rfl | ha
      · rw [hnext] at hsmall
        omega
      · exact hall a ha

/-- What `malloc(n)` has done when it returns `r`. -/
def Got (base n : ℕ) (live : List Block) (r : ℕ) (h : Heap) : Prop :=
  h.total < 2 ^ 36 ∧ ((r = 0 ∧ ∃ l, Rep base h l live) ∨
    ∃ b l, r = b.addr + 16 ∧ b.size = units n ∧ Rep base h l (b :: live))

namespace Rep

lemma got_carve (hr : Rep base h l live) (hsmall : h.total < 2 ^ 36) (hp : p ∈ l.map Block.addr)
    (hfit : units n ≤ (h.hdr (h.next p)).size) :
    Got base n live (Malloc.carve (units n) p (h.next p) h).1
      (Malloc.carve (units n) p (h.next p) h).2 := by
  obtain ⟨c₁, c₂, hc⟩ := append_of_mem hp
  have hmem := (hr.ring c₁ p c₂ hc).next_mem mem_cons_self
  have hmem' : h.next p ∈ l.map Block.addr := by
    rw [hc]
    simp only [mem_append, mem_cons, not_mem_nil, or_false] at hmem ⊢
    tauto
  obtain ⟨x, hx, hnext⟩ := mem_map.mp hmem'
  have hsize : (h.hdr x.addr).size = x.size := hr.pool.size_eq x (mem_append_left _ hx)
  rw [← hnext, hsize] at hfit
  obtain ⟨b, l', hb, hbn, hr', hm⟩ := hr.carve hx hp hnext.symm (units_pos n) hfit
  rw [← hnext]
  refine ⟨?_, .inr ⟨b, l', hb, hbn, hr'⟩⟩
  rwa [Heap.total, hm]

lemma search (hr : Rep base h l live) (hsmall : h.total < 2 ^ 36) {E : Halt → Heap → Prop}
    (hk : l.length ≤ k)
    (hmore : (∀ x ∈ l, x.size < units n) →
      wp (Malloc.morecore base answer (k - l.length) (units n)) (fun p h' =>
        if p = 0 then Got base n live 0 h' else
        wp (Malloc.search base answer (units n) (k - l.length) p (h'.next p))
          (Got base n live) E h') E h) :
    wp (Malloc.search base answer (units n) k h.freep (h.next h.freep)) (Got base n live) E h := by
  obtain ⟨c₁, c₂, hc⟩ := append_of_mem hr.freep
  have hnd := hr.addr_nodup
  have hlen := congrArg List.length hc
  rw [hc] at hnd
  simp only [length_map, length_append, length_cons] at hlen
  have hmem : ∀ a, a ∈ l.map Block.addr ↔ a ∈ c₂ ++ c₁ ++ [h.freep] := by
    intro a
    rw [hc]
    simp only [mem_append, mem_cons, not_mem_nil, or_false]
    tauto
  refine search_walk (hr.ring c₁ h.freep c₂ hc) ?_ ?_ (fun q hq hfit => ?_) fun hall => ?_
  · rw [nodup_append, nodup_cons] at hnd
    intro hin
    rcases mem_append.mp hin with hin | hin
    · exact hnd.2.1.1 hin
    · exact hnd.2.2 _ hin _ mem_cons_self rfl
  · rw [length_append]
    omega
  · refine hr.got_carve hsmall ((hmem q).mpr ?_) hfit
    simp only [mem_append, mem_cons, not_mem_nil, or_false] at hq ⊢
    tauto
  · have hfuel : k - (c₂ ++ c₁).length - 1 = k - l.length := by
      rw [length_append]
      omega
    rw [hfuel]
    refine hmore fun x hx => ?_
    rw [← hr.pool.size_eq x (mem_append_left _ hx)]
    exact hall _ ((hmem _).mp (mem_map_of_mem hx))

/-- **`malloc` gives a block out of the heap**, and only a broken promise of `sbrk` stops it. -/
lemma malloc (hr : Rep base h l live) (hbase : 0 < base) (hok : Orderly base n answer)
    (hsmall : h.total < 2 ^ 36) (hk : 2 * l.length + 1 ≤ k) :
    wp (Malloc.malloc base answer k n) (Got base n live) (fun e _ => e = .notNew) h := by
  have hinit : h.init base = h := by
    rw [Heap.init, if_neg]
    exact Nat.pos_iff_ne_zero.mp (hr.addr_pos hbase hr.freep)
  unfold Malloc.malloc
  rw [wp_bind, wp_modify, hinit, wp_bind, wp_get]
  refine hr.search hsmall (by omega) fun _ => ?_
  refine wp_mono (hr.morecore hbase hok (by omega)) (fun p h' hp => ?_) fun _ _ he => he
  rcases hp with ⟨rfl, rfl⟩ | ⟨hp, rfl, hsmall', l', hr', ⟨x, hx, hfit⟩, hlen⟩
  · rw [if_pos rfl]
    exact ⟨hsmall, .inl ⟨rfl, l, hr⟩⟩
  · rw [if_neg hp]
    refine hr'.search hsmall' (by omega) fun hall => ?_
    exact absurd hfit (Nat.not_le_of_lt (hall x hx))

end Rep

end Xv6.Malloc
