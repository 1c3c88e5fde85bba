import Xv6.Lib.Chain
import Xv6.Malloc.Program
import Mathlib.Algebra.Order.BigOperators.Group.List
import Mathlib.Algebra.Order.Group.Nat

/-!
How the headers in memory represent the heap: the blocks that the memory is divided into, and the
free ones among them as a cycle through `base`, in the order of their addresses.
-/

namespace Xv6.Malloc

open Lib.Wp Lib.Chain Lib.Spans Function List

structure Block where
  addr : ℕ
  size : ℕ

namespace Block

def fin (b : Block) : ℕ := b.addr + 16 * b.size

def span (b : Block) : Span := ⟨b.addr, b.fin⟩

lemma addr_le_fin (b : Block) : b.addr ≤ b.fin := Nat.le_add_right ..

end Block

/-- A block where blocks can be. -/
structure Fine (base : ℕ) (b : Block) : Prop where
  pos : 0 < b.size
  addr_pos : 0 < b.addr
  aligned : b.addr % 16 = 0
  apart : b.fin < base ∨ base + 16 ≤ b.addr

namespace Heap

def setHdr (h : Heap) (p : ℕ) (x : Header) : Heap := { h with hdr := update h.hdr p x }

section

variable {p a : ℕ} (h : Heap)

lemma setHdr_self (p : ℕ) (x : Header) : (h.setHdr p x).hdr p = x :=
  update_self ..

lemma setHdr_of_ne (x : Header) (ha : a ≠ p) :
    (h.setHdr p x).hdr a = h.hdr a := update_of_ne ha ..

lemma setPtr_eq (p v : ℕ) : h.setPtr p v = h.setHdr p ⟨v, (h.hdr p).size⟩ := rfl

lemma setSize_eq (p v : ℕ) : h.setSize p v = h.setHdr p ⟨(h.hdr p).ptr, v⟩ := rfl

lemma setPtr_setSize (p s v : ℕ) : (h.setSize p s).setPtr p v = h.setHdr p ⟨v, s⟩ := by
  simp [setPtr, setSize, setHdr]

lemma setSize_setPtr (p s v : ℕ) : (h.setPtr p v).setSize p s = h.setHdr p ⟨v, s⟩ := by
  simp [setPtr, setSize, setHdr]

lemma setPtr_setPtr (p v v' : ℕ) : (h.setPtr p v).setPtr p v' = h.setPtr p v' := by
  simp [setPtr]

def next (h : Heap) (p : ℕ) : ℕ := (h.hdr p).ptr

lemma setPtr_next (p : ℕ) : h.setPtr p (h.next p) = h := by
  simp [setPtr, next]

lemma next_setPtr_self (p v : ℕ) : (h.setPtr p v).next p = v := by
  rw [next, setPtr_eq, setHdr_self]

lemma next_setPtr_of_ne (v : ℕ) (ha : a ≠ p) :
    (h.setPtr p v).next a = h.next a := by
  rw [next, setPtr_eq, setHdr_of_ne _ _ ha, next]

lemma size_setPtr (p v a : ℕ) : ((h.setPtr p v).hdr a).size = (h.hdr a).size := by
  by_cases ha : a = p
  · rw [ha, setPtr_eq, setHdr_self]
  · rw [setPtr_eq, setHdr_of_ne _ _ ha]

lemma next_setSize (p v a : ℕ) : (h.setSize p v).next a = h.next a := by
  by_cases ha : a = p
  · rw [ha, next, setSize_eq, setHdr_self, next]
  · rw [next, setSize_eq, setHdr_of_ne _ _ ha, next]

lemma setPtr_setHdr_comm {q : ℕ} (hpq : p ≠ q) (v : ℕ) (x : Header) :
    (h.setHdr q x).setPtr p v = (h.setPtr p v).setHdr q x := by
  simp [setPtr, setHdr, hpq, update_comm hpq]

end

/-- `sbrk` has given out address `a`. -/
def Given (h : Heap) (a : ℕ) : Prop := ∃ x ∈ h.memory, x.Has a

/-- The number of bytes that `sbrk` has given out. -/
def total (h : Heap) : ℕ := (h.memory.map Span.length).sum

end Heap

/-! ### The blocks of the memory -/

/-- The memory is divided into the blocks of `l`, one of which is the empty `base`. -/
structure Pool (base : ℕ) (h : Heap) (l : List Block) : Prop where
  size_eq : ∀ b ∈ l, (h.hdr b.addr).size = b.size
  fine : ∀ b ∈ l, b = ⟨base, 0⟩ ∨ Fine base b
  tiles : Tiles (l.map Block.span) h.Given
  total : 16 * (l.map Block.size).sum = h.total

variable {base k p : ℕ} {h h' : Heap} {l l' live : List Block} {b x y : Block}

namespace Pool

lemma perm (hl : Pool base h l) (hp : l.Perm l') : Pool base h l' := by
  refine ⟨fun b hb => hl.size_eq b (hp.mem_iff.mpr hb), fun b hb => hl.fine b (hp.mem_iff.mpr hb),
    hl.tiles.perm (hp.map _), ?_⟩
  rw [← hl.total, (hp.map Block.size).sum_eq]

lemma addr_nodup (hl : Pool base h l) : (l.map Block.addr).Nodup := by
  have hnd := hl.tiles.lo_ne
  rwa [map_map] at hnd

lemma addr_ne (hl : Pool base h (b :: l)) (hx : x ∈ l) : x.addr ≠ b.addr := by
  have hnd := hl.addr_nodup
  rw [map_cons, nodup_cons] at hnd
  rintro heq
  exact hnd.1 (heq ▸ mem_map_of_mem hx)

lemma apart (hl : Pool base h (b :: l)) (hx : x ∈ l) : b.fin ≤ x.addr ∨ x.fin ≤ b.addr := by
  have hap := hl.tiles.apart
  rw [map_cons, pairwise_cons] at hap
  exact hap.1 x.span (mem_map_of_mem hx)

lemma size_le (hl : Pool base h l) (hb : b ∈ l) : 16 * b.size ≤ h.total := by
  rw [← hl.total]
  exact Nat.mul_le_mul_left 16 (le_sum_of_mem (mem_map_of_mem hb))

lemma congr (hl : Pool base h l) (hsize : ∀ a, (h'.hdr a).size = (h.hdr a).size)
    (hmem : h'.memory = h.memory) : Pool base h' l := by
  have hgiven : h'.Given = h.Given := by
    unfold Heap.Given
    rw [hmem]
  refine ⟨fun b hb => (hsize _).trans (hl.size_eq b hb), hl.fine, ?_, ?_⟩
  · rw [hgiven]
    exact hl.tiles
  · rw [hl.total, Heap.total, Heap.total, hmem]

lemma join (hl : Pool base h (b :: y :: l)) (hb : Fine base b) (hy : Fine base y)
    (hadj : b.fin = y.addr) (v : ℕ) :
    Pool base (h.setHdr b.addr ⟨v, b.size + y.size⟩) (⟨b.addr, b.size + y.size⟩ :: l) := by
  have hfin : (⟨b.addr, b.size + y.size⟩ : Block).fin = y.fin := by
    simp only [Block.fin] at hadj ⊢
    omega
  refine ⟨fun z hz => ?_, fun z hz => ?_, ?_, ?_⟩
  · rcases mem_cons.mp hz with rfl | hz
    · exact congrArg Header.size (Heap.setHdr_self ..)
    · rw [Heap.setHdr_of_ne _ _ (hl.addr_ne (by simp [hz]))]
      exact hl.size_eq z (by simp [hz])
  · rcases mem_cons.mp hz with rfl | hz
    · right
      have h1 := hb.pos
      refine ⟨show 0 < b.size + y.size by omega, hb.addr_pos, hb.aligned, ?_⟩
      rw [hfin]
      have h2 := hb.apart
      have h3 := hy.apart
      have h4 := y.addr_le_fin
      change y.fin < base ∨ base + 16 ≤ b.addr
      omega
    · exact hl.fine z (by simp [hz])
  · have hjoin := hl.tiles.join hadj
    rw [map_cons, Block.span, hfin]
    exact hjoin
  · have := hl.total
    simp only [map_cons, sum_cons] at this ⊢
    rw [Nat.add_assoc]
    exact this

lemma split (hl : Pool base h (x :: l)) (hx : Fine base x) {n : ℕ} (hn : 0 < n)
    (hnx : n < x.size) :
    Pool base ((h.setSize x.addr (x.size - n)).setSize (x.addr + 16 * (x.size - n)) n)
      (⟨x.addr + 16 * (x.size - n), n⟩ :: ⟨x.addr, x.size - n⟩ :: l) := by
  have hne : x.addr ≠ x.addr + 16 * (x.size - n) := by omega
  have hfin : (⟨x.addr + 16 * (x.size - n), n⟩ : Block).fin = x.fin := by
    simp only [Block.fin]
    omega
  have htiles : Tiles ((⟨x.addr + 16 * (x.size - n), n⟩ :: ⟨x.addr, x.size - n⟩ :: l : List Block).map
      Block.span) h.Given := by
    have hsplit := hl.tiles.split (m := x.addr + 16 * (x.size - n))
      (show x.addr < _ by omega) (show _ < x.fin by rw [Block.fin]; omega)
    rw [map_cons, Block.span, hfin]
    exact hsplit
  have hnd := htiles.lo_ne
  rw [map_map] at hnd
  have hother : ∀ z ∈ l, z.addr ≠ x.addr + 16 * (x.size - n) := by
    intro z hz heq
    refine (nodup_cons.mp hnd).1 (mem_cons_of_mem _ (mem_map.mpr ⟨z, hz, heq⟩))
  refine ⟨fun z hz => ?_, fun z hz => ?_, htiles, ?_⟩
  · simp only [mem_cons] at hz
    rcases hz with rfl | rfl | hz
    · exact congrArg Header.size (Heap.setHdr_self ..)
    · rw [Heap.setSize_eq, Heap.setHdr_of_ne _ _ hne]
      exact congrArg Header.size (Heap.setHdr_self ..)
    · rw [Heap.setSize_eq, Heap.setHdr_of_ne _ _ (hother z hz), Heap.setSize_eq,
        Heap.setHdr_of_ne _ _ (hl.addr_ne hz)]
      exact hl.size_eq z (by simp [hz])
  · have h1 := hx.addr_pos
    have h2 := hx.aligned
    have h3 := hx.apart
    simp only [mem_cons] at hz
    rcases hz with rfl | rfl | hz
    · refine .inr ⟨hn, show 0 < x.addr + 16 * (x.size - n) by omega,
        show (x.addr + 16 * (x.size - n)) % 16 = 0 by omega, ?_⟩
      rw [hfin]
      change x.fin < base ∨ base + 16 ≤ x.addr + 16 * (x.size - n)
      omega
    · refine .inr ⟨show 0 < x.size - n by omega, h1, h2, ?_⟩
      simp only [Block.fin] at h3 ⊢
      omega
    · exact hl.fine z (by simp [hz])
  · have := hl.total
    simp only [map_cons, sum_cons] at this ⊢
    have hsum : n + (x.size - n + (l.map Block.size).sum) = x.size + (l.map Block.size).sum := by
      omega
    rw [hsum]
    exact this

lemma add (hl : Pool base h l) (hb : Fine base b) (hnew : IsNew base h b.span) :
    Pool base ({ h with memory := b.span :: h.memory }.setSize b.addr b.size) (b :: l) := by
  have hpos : b.addr < b.fin := by
    have := hb.pos
    rw [Block.fin]
    omega
  have hap : ∀ y ∈ l, b.span.Apart y.span ∧ y.addr ≠ b.addr := by
    intro y hy
    rcases hl.fine y hy with rfl | hfine
    · have := hb.apart
      change (b.fin ≤ base ∨ base ≤ b.addr) ∧ base ≠ b.addr
      omega
    · have hylt : y.addr < y.fin := by
        have := hfine.pos
        rw [Block.fin]
        omega
      have hap : b.span.Apart y.span := by
        refine Span.apart_of_disjoint hpos hylt fun a ha hya => ?_
        obtain ⟨z, hz, hza⟩ := (hl.tiles.cover a).mpr ⟨y.span, mem_map_of_mem hy, hya⟩
        have hbz : b.fin ≤ z.lo ∨ z.hi ≤ b.addr := hnew.2 z (mem_cons_of_mem _ hz)
        have h1 : b.addr ≤ a ∧ a < b.fin := ha
        have h2 : z.lo ≤ a ∧ a < z.hi := hza
        omega
      refine ⟨hap, ?_⟩
      have : b.fin ≤ y.addr ∨ y.fin ≤ b.addr := hap
      omega
  refine ⟨fun z hz => ?_, fun z hz => ?_, ?_, ?_⟩
  · rcases mem_cons.mp hz with rfl | hz
    · exact congrArg Header.size (Heap.setHdr_self ..)
    · rw [Heap.setSize_eq, Heap.setHdr_of_ne _ _ (hap z hz).2]
      exact hl.size_eq z hz
  · rcases mem_cons.mp hz with rfl | hz
    · exact .inr hb
    · exact hl.fine z hz
  · have hadd := hl.tiles.add (x := b.span) (Nat.le_of_lt hpos) fun y hy => by
      obtain ⟨z, hz, rfl⟩ := mem_map.mp hy
      exact hap z hz
    refine ⟨hadd.le, hadd.lo_ne, hadd.apart, fun a => ?_⟩
    rw [map_cons, ← hadd.cover]
    simp [Heap.Given, Heap.setSize]
  · have hlen : b.span.length = 16 * b.size := Nat.add_sub_cancel_left ..
    have htotal : ({ h with memory := b.span :: h.memory }.setSize b.addr b.size).total =
        b.span.length + h.total := by
      simp [Heap.total, Heap.setSize]
    rw [htotal, hlen, ← hl.total, map_cons, sum_cons, Nat.mul_add]

end Pool

end Xv6.Malloc
