import Xv6.Io
import Xv6.Lib.Conc
import Mathlib.Algebra.Order.BigOperators.Group.List
import Mathlib.Data.List.Count
import Mathlib.Algebra.BigOperators.Group.List.Lemmas

/-!
The buffer cache shared by any number of processes.

Each process has some buffers in its hands, each in a phase of its use. `Cache` relates the
cache and the disk to the hands of all processes, to the contents `V` that reading a block
gives, and to the blocks pinned by the log. Blocks may be recycled at any time; what `V`
says about them does not change by it.
-/

namespace Xv6.Share

open Lib.Bytes Lib.Conc Bio Function

/-- What the holder of a sleep-lock knows about its buffer: nothing yet, that it has the
contents of its block, that it has been overwritten with `d`, or that it has the contents
of its block and so has the disk. -/
inductive Phase
  | raw
  | clean
  | dirty (d : Block)
  | synced

/-- The buffers a process has from `bget`: one whose lock it waits for, those it holds with
their blocks, and one it has unlocked but not yet released. -/
@[ext]
structure Hands where
  want : Option (Fin NBUF × ℕ)
  st : Fin NBUF → Option (ℕ × Phase)
  gone : Option (Fin NBUF)

namespace Hands

/-- How often buffer `i` is in these hands. -/
def refs (h : Hands) (i : Fin NBUF) : ℕ :=
  (if h.want.map Prod.fst = some i then 1 else 0) + (if (h.st i).isSome then 1 else 0) +
    (if h.gone = some i then 1 else 0)

def empty : Hands := ⟨none, fun _ => none, none⟩

/-- Hold buffer `i` of block `b`. -/
def hold (h : Hands) (i : Fin NBUF) (b : ℕ) (ph : Phase) : Hands :=
  { h with st := update h.st i (some (b, ph)) }

def drop (h : Hands) (i : Fin NBUF) : Hands :=
  { h with st := update h.st i none }

@[simp] lemma hold_st_self (h : Hands) (i : Fin NBUF) (b : ℕ) (ph : Phase) :
    (h.hold i b ph).st i = some (b, ph) := by simp [hold]

lemma hold_st_of_ne (h : Hands) {i j : Fin NBUF} (b : ℕ) (ph : Phase) (hj : j ≠ i) :
    (h.hold i b ph).st j = h.st j := by simp [hold, hj]

@[simp] lemma drop_st_self (h : Hands) (i : Fin NBUF) : (h.drop i).st i = none := by simp [drop]

lemma drop_st_of_ne (h : Hands) {i j : Fin NBUF} (hj : j ≠ i) : (h.drop i).st j = h.st j := by
  simp [drop, hj]

lemma drop_hold {h : Hands} {i : Fin NBUF} (hi : h.st i = none) (b : ℕ) (ph : Phase) :
    (h.hold i b ph).drop i = h := by
  ext1
  · rfl
  · simp only [drop, hold, update_idem]
    rw [← hi, update_eq_self]
  · rfl

lemma hold_hold (h : Hands) (i : Fin NBUF) (b b' : ℕ) (ph ph' : Phase) :
    (h.hold i b ph).hold i b' ph' = h.hold i b' ph' := by
  simp only [hold, update_idem]

lemma hold_comm (h : Hands) {i j : Fin NBUF} (hij : i ≠ j) (b b' : ℕ) (ph ph' : Phase) :
    (h.hold i b ph).hold j b' ph' = (h.hold j b' ph').hold i b ph := by
  simp only [hold, update_comm hij]

lemma refs_le (h : Hands) (i : Fin NBUF) : h.refs i ≤ 3 := by
  unfold refs
  split <;> split <;> split <;> omega

lemma refs_hold {h : Hands} {i : Fin NBUF} (hs : (h.st i).isSome) (b : ℕ) (ph : Phase) :
    (h.hold i b ph).refs i = h.refs i := by
  simp only [refs, hold_st_self, hs, Option.isSome_some]
  rfl

end Hands

/-- What a phase says about buffer `i` of block `b`. -/
def Phase.Ok (c : Bcache) (d V : Disk) (i : Fin NBUF) (b : ℕ) : Phase → Prop
  | .raw => True
  | .clean => (c.buf i).valid = true
  | .dirty x => (c.buf i).valid = true ∧ (c.buf i).data = x
  | .synced => (c.buf i).valid = true ∧ d b = V b

variable {N : ℕ}

/-- No holder has overwritten the buffer. -/
def Settled (h : Fin N → Hands) (i : Fin NBUF) : Prop := ∀ p b x, (h p).st i ≠ some (b, .dirty x)

structure Cache (c : Bcache) (d : Disk) (h : Fin N → Hands) (V : Disk) (pins : List ℕ) : Prop where
  linked : Linked c
  uniq : ∀ i j, (c.buf i).dev = ROOTDEV → (c.buf j).dev = ROOTDEV →
    (c.buf i).blockno = (c.buf j).blockno → i = j
  foreign : ∀ i, (c.buf i).dev ≠ ROOTDEV → (c.buf i).refcnt = 0 ∧ (c.buf i).users = []
  users : ∀ i (p : Fin N), (c.buf i).users.count p.val = (h p).refs i
  usersLt : ∀ i, ∀ q ∈ (c.buf i).users, q < N
  refcnt : ∀ i, (c.buf i).dev = ROOTDEV → (c.buf i).refcnt =
    UInt32.ofNat (c.buf i).users.length + if (c.buf i).blockno ∈ pins then 1 else 0
  lock : ∀ i q, (c.buf i).lock = some q ↔ ∃ p : Fin N, p.val = q ∧ ((h p).st i).isSome
  want : ∀ p i b, (h p).want = some (i, b) → c.Has ROOTDEV b i
  held : ∀ p i b ph, (h p).st i = some (b, ph) → c.Has ROOTDEV b i ∧ ph.Ok c d V i b
  data : ∀ i, (c.buf i).dev = ROOTDEV → (c.buf i).valid = true → Settled h i →
    (c.buf i).data = V (c.buf i).blockno
  disk : ∀ b, b ∉ pins → (∀ i, c.Has ROOTDEV b i → Settled h i) → d b = V b
  pinned : ∀ b ∈ pins, ∃ i, c.Has ROOTDEV b i ∧ (c.buf i).valid = true
  nodup : pins.Nodup

variable {c : Bcache} {d V : Disk} {h : Fin N → Hands} {pins : List ℕ} {p : Fin N} {i : Fin NBUF}
  {b : ℕ}

namespace Cache

section

variable {ph : Phase} (H : Cache c d h V pins)

include H

lemma has_inj {j : Fin NBUF} (hi : c.Has ROOTDEV b i) (hj : c.Has ROOTDEV b j) : i = j :=
  H.uniq i j hi.1 hj.1 (hi.2.trans hj.2.symm)

lemma exclusive {q : Fin N} (hp : ((h p).st i).isSome) (hq : ((h q).st i).isSome) : q = p := by
  have h1 := (H.lock i p).mpr ⟨p, rfl, hp⟩
  have h2 := (H.lock i q).mpr ⟨q, rfl, hq⟩
  rw [h1, Option.some.injEq] at h2
  exact Fin.ext h2.symm

lemma settled (hst : (h p).st i = some (b, ph)) (hph : ∀ x, ph ≠ .dirty x) : Settled h i := by
  intro q e x hq
  have : q = p := H.exclusive (by rw [hst]; rfl) (by rw [hq]; rfl)
  subst this
  rw [hst] at hq
  simp only [Option.some.injEq, Prod.mk.injEq] at hq
  exact hph x hq.2

/-- A held buffer whose holder has not overwritten it has the contents of its block. -/
lemma data_eq (hst : (h p).st i = some (b, ph)) (hph : ∀ x, ph ≠ .dirty x)
    (hv : (c.buf i).valid = true) : (c.buf i).data = V b := by
  obtain ⟨⟨hdev, hb⟩, -⟩ := H.held p i b ph hst
  rw [← hb]
  exact H.data i hdev hv (H.settled hst hph)

lemma users_length_le (i : Fin NBUF) :
    (c.buf i).users.length ≤ 3 * N := by
  have hcount : ∀ x ∈ ((c.buf i).users.dedup.map fun q => (c.buf i).users.count q), x ≤ 3 := by
    intro x hx
    obtain ⟨q, hq, rfl⟩ := List.mem_map.mp hx
    have hlt := H.usersLt i q (List.mem_dedup.mp hq)
    have := H.users i ⟨q, hlt⟩
    rw [this]
    exact (h _).refs_le i
  have hsum := List.sum_le_card_nsmul _ 3 hcount
  rw [List.sum_map_count_dedup_eq_length, List.length_map] at hsum
  have hlen : (c.buf i).users.dedup.length ≤ N := by
    have hsub : (c.buf i).users.dedup ⊆ List.range N := fun q hq =>
      List.mem_range.mpr (H.usersLt i q (List.mem_dedup.mp hq))
    simpa using ((List.nodup_dedup _).subperm hsub).length_le
  rw [nsmul_eq_mul] at hsum
  simp only [Nat.cast_id] at hsum
  omega

lemma of_refcnt_zero (hN : 3 * N + 1 < 2 ^ 32) (hz : (c.buf i).refcnt = 0) :
    (c.buf i).users = [] ∧ ((c.buf i).dev = ROOTDEV → (c.buf i).blockno ∉ pins) := by
  by_cases hdev : (c.buf i).dev = ROOTDEV
  · have hr := H.refcnt i hdev
    have hlen := H.users_length_le i
    rw [hz] at hr
    have hr' := congrArg UInt32.toNat hr
    split at hr'
    · simp only [UInt32.toNat_add, UInt32.toNat_ofNat, UInt32.toNat_ofNat'] at hr'
      omega
    · simp only [UInt32.add_zero, UInt32.toNat_ofNat'] at hr'
      refine ⟨List.length_eq_zero_iff.mp (by simp at hr'; omega), fun _ => ‹_›⟩
  · exact ⟨(H.foreign i hdev).2, fun hd => absurd hd hdev⟩

lemma refs_zero (hu : (c.buf i).users = []) (q : Fin N) :
    (h q).refs i = 0 := by
  rw [← H.users i q, hu]; rfl

lemma st_none (hu : (c.buf i).users = []) (q : Fin N) :
    (h q).st i = none := by
  have := H.refs_zero hu q
  unfold Hands.refs at this
  by_contra hne
  rw [← ne_eq, Option.ne_none_iff_isSome] at hne
  rw [if_pos hne] at this
  omega

end

lemma ofNat_succ (n : ℕ) : UInt32.ofNat (n + 1) = UInt32.ofNat n + 1 := by
  rw [UInt32.ofNat_add]; rfl

/-! ### Changing one buffer -/

section

variable {c' : Bcache} {d' V' : Disk} {pins' : List ℕ} {k : Hands} (H : Cache c d h V pins)

include H

omit H in
lemma has_iff (hi : c.Has ROOTDEV b i) (hi' : c'.Has ROOTDEV b i)
    (hbuf : ∀ j, j ≠ i → c'.buf j = c.buf j) (e : ℕ) (j : Fin NBUF) :
    c'.Has ROOTDEV e j ↔ c.Has ROOTDEV e j := by
  by_cases hj : j = i
  · subst hj
    exact ⟨fun he => ⟨hi.1, hi.2.trans (hi'.2.symm.trans he.2)⟩,
      fun he => ⟨hi'.1, hi'.2.trans (hi.2.symm.trans he.2)⟩⟩
  · simp only [Bcache.Has, hbuf j hj]

omit H in
lemma settled_iff {j : Fin NBUF} (hst : k.st j = (h p).st j) :
    Settled (update h p k) j ↔ Settled h j := by
  refine forall_congr' fun q => forall_congr' fun e => forall_congr' fun x => ?_
  rw [update_proj (fun k : Hands => k.st j) hst]

/-- What the holders of the other buffers know stays true. -/
lemma held_ne {q : Fin N} {j : Fin NBUF} {e : ℕ} {ph : Phase} (hbuf : c'.buf j = c.buf j)
    (hst : k.st j = (h p).st j) (hd : c.Has ROOTDEV e j → d' e = d e ∧ V' e = V e)
    (hq : (update h p k q).st j = some (e, ph)) : c.Has ROOTDEV e j ∧ ph.Ok c' d' V' j e := by
  rw [update_proj (fun k : Hands => k.st j) hst] at hq
  obtain ⟨hh, hok⟩ := H.held q j e ph hq
  refine ⟨hh, ?_⟩
  cases ph with
  | raw => trivial
  | clean | dirty x => simpa only [Phase.Ok, hbuf] using hok
  | synced => simpa only [Phase.Ok, hbuf, (hd hh).1, (hd hh).2] using hok

lemma users_lt (hbuf : ∀ j, j ≠ i → c'.buf j = c.buf j)
    (husers : ∀ q, q ≠ p.val → (c'.buf i).users.count q = (c.buf i).users.count q) (j : Fin NBUF)
    (q : ℕ) (hq : q ∈ (c'.buf j).users) : q < N := by
  by_cases hji : j = i
  · subst hji
    by_cases hqp : q = p.val
    · rw [hqp]; exact p.isLt
    · have hpos := List.count_pos_iff.mpr hq
      rw [husers q hqp] at hpos
      exact H.usersLt j q (List.count_pos_iff.mp hpos)
  · rw [hbuf j hji] at hq
    exact H.usersLt j q hq

/-- Process `p` changes buffer `i`, which stays assigned to block `b`, and what there is to
say about `b`; then only `i` and `b` have to be looked at. -/
lemma change (hi : c.Has ROOTDEV b i) (hi' : c'.Has ROOTDEV b i) (hlink : Linked c')
    (hbuf : ∀ j, j ≠ i → c'.buf j = c.buf j) (hst : ∀ j, j ≠ i → k.st j = (h p).st j)
    (hrefs : ∀ j, j ≠ i → k.refs j = (h p).refs j)
    (hwant : ∀ j e, k.want = some (j, e) → (j = i ∧ e = b) ∨ (h p).want = some (j, e))
    (hd : ∀ e, e ≠ b → d' e = d e) (hV : ∀ e, e ≠ b → V' e = V e)
    (hpins : ∀ e, e ≠ b → (e ∈ pins' ↔ e ∈ pins)) (hnodup : pins'.Nodup)
    (husers : (c'.buf i).users.count p.val = k.refs i)
    (husers' : ∀ q, q ≠ p.val → (c'.buf i).users.count q = (c.buf i).users.count q)
    (hrefcnt : (c'.buf i).refcnt =
      UInt32.ofNat (c'.buf i).users.length + if b ∈ pins' then 1 else 0)
    (hlock : ∀ q, (c'.buf i).lock = some q ↔ ∃ p' : Fin N, p'.val = q ∧
      ((update h p k p').st i).isSome)
    (hheld : ∀ e ph, k.st i = some (e, ph) → e = b ∧ ph.Ok c' d' V' i b)
    (hkeep : ∀ q, q ≠ p → ∀ e ph, (h q).st i = some (e, ph) → ph.Ok c d V i b → ph.Ok c' d' V' i b)
    (hdata : (c'.buf i).valid = true → Settled (update h p k) i → (c'.buf i).data = V' b)
    (hdisk : b ∉ pins' → Settled (update h p k) i → d' b = V' b)
    (hpinned : b ∈ pins' → (c'.buf i).valid = true) :
    Cache c' d' (update h p k) V' pins' := by
  have hhas := has_iff hi hi' hbuf
  have hne : ∀ e j, e ≠ b → c.Has ROOTDEV e j → j ≠ i :=
    fun e j he hj hji => he (by rw [← hj.2, hji, hi.2])
  have hne' : ∀ e j, j ≠ i → c.Has ROOTDEV e j → e ≠ b := fun e j hji hj he =>
    hji (H.has_inj hj (he ▸ hi))
  constructor
  case linked => exact hlink
  case uniq =>
    intro j l hj hl hjl
    exact H.has_inj ((hhas _ j).mp ⟨hj, rfl⟩) ((hhas _ l).mp ⟨hl, hjl.symm⟩)
  case foreign =>
    intro j hj
    have hji : j ≠ i := fun hji => hj (by rw [hji]; exact hi'.1)
    rw [hbuf j hji] at hj ⊢
    exact H.foreign j hj
  case users =>
    intro j q
    by_cases hji : j = i
    · subst hji
      by_cases hq : q = p
      · subst hq; rw [update_self]; exact husers
      · rw [update_of_ne hq, husers' _ fun e => hq (Fin.ext e)]
        exact H.users j q
    · rw [hbuf j hji, H.users j q]
      rw [update_proj (fun k : Hands => k.refs j) (hrefs j hji)]
  case usersLt => exact H.users_lt hbuf husers'
  case refcnt =>
    intro j hj
    by_cases hji : j = i
    · subst hji
      rw [hi'.2]; exact hrefcnt
    · rw [hbuf j hji] at hj ⊢
      rw [H.refcnt j hj]
      simp only [hpins _ (hne' _ j hji ⟨hj, rfl⟩)]
  case lock =>
    intro j q
    by_cases hji : j = i
    · subst hji; exact hlock q
    · rw [hbuf j hji, H.lock j q]
      refine exists_congr fun p' => and_congr_right fun _ => ?_
      rw [update_proj (fun k : Hands => k.st j) (hst j hji)]
  case want =>
    intro q j e hq
    by_cases hqp : q = p
    · subst hqp
      rw [update_self] at hq
      rcases hwant j e hq with ⟨rfl, rfl⟩ | hq'
      · exact hi'
      · exact (hhas e j).mpr (H.want q j e hq')
    · rw [update_of_ne hqp] at hq
      exact (hhas e j).mpr (H.want q j e hq)
  case held =>
    intro q j e ph hq
    by_cases hji : j = i
    · subst hji
      by_cases hqp : q = p
      · subst hqp
        rw [update_self] at hq
        obtain ⟨rfl, hok⟩ := hheld e ph hq
        exact ⟨hi', hok⟩
      · rw [update_of_ne hqp] at hq
        obtain ⟨hh, hok⟩ := H.held q j e ph hq
        have he : e = b := hh.2.symm.trans hi.2
        subst he
        exact ⟨hi', hkeep q hqp e ph hq hok⟩
    · refine (H.held_ne (hbuf j hji) (hst j hji) (fun hh => ?_) hq).imp_left (hhas e j).mpr
      exact ⟨hd e (hne' e j hji hh), hV e (hne' e j hji hh)⟩
  case data =>
    intro j hj hv hs
    by_cases hji : j = i
    · subst hji
      rw [hi'.2]; exact hdata hv hs
    · rw [hbuf j hji] at hj hv ⊢
      rw [hV _ (hne' _ j hji ⟨hj, rfl⟩)]
      exact H.data j hj hv ((settled_iff (hst j hji)).mp hs)
  case disk =>
    intro e he hs
    by_cases heb : e = b
    · subst heb
      exact hdisk he (hs i hi')
    · rw [hd e heb, hV e heb]
      refine H.disk e (fun hm => he ((hpins e heb).mpr hm)) fun j hj => ?_
      exact (settled_iff (hst j (hne e j heb hj))).mp (hs j ((hhas e j).mpr hj))
  case pinned =>
    intro e he
    by_cases heb : e = b
    · subst heb
      exact ⟨i, hi', hpinned he⟩
    · obtain ⟨j, hj, hv⟩ := H.pinned e ((hpins e heb).mp he)
      exact ⟨j, (hhas e j).mpr hj, by rw [hbuf j (hne e j heb hj)]; exact hv⟩
  case nodup => exact hnodup

lemma lock_same {o : Option ℕ} (ho : o = (c.buf i).lock)
    (hk : (k.st i).isSome = ((h p).st i).isSome) (q : ℕ) :
    o = some q ↔ ∃ p' : Fin N, p'.val = q ∧ ((update h p k p').st i).isSome := by
  rw [ho, H.lock i q]
  refine exists_congr fun p' => and_congr_right fun _ => ?_
  rw [update_proj (fun k : Hands => (k.st i).isSome) hk]

/-- A process changes what it knows about a buffer it holds, or the buffer itself. -/
lemma keep {ph ph' : Phase} {f : Buf → Buf} (hst : (h p).st i = some (b, ph)) (hc' : c' = c.set i f)
    (hf : f (c.buf i) = { c.buf i with
      valid := (f (c.buf i)).valid, data := (f (c.buf i)).data, refcnt := (f (c.buf i)).refcnt })
    (hd : ∀ e, e ≠ b → d' e = d e) (hV : ∀ e, e ≠ b → V' e = V e)
    (hpins : ∀ e, e ≠ b → (e ∈ pins' ↔ e ∈ pins)) (hnodup : pins'.Nodup)
    (hrefcnt : (f (c.buf i)).refcnt =
      UInt32.ofNat (c.buf i).users.length + if b ∈ pins' then 1 else 0) (hok : ph'.Ok c' d' V' i b)
    (hdata : (f (c.buf i)).valid = true → (∀ x, ph' ≠ .dirty x) → (f (c.buf i)).data = V' b)
    (hdisk : b ∉ pins' → (∀ x, ph' ≠ .dirty x) → d' b = V' b)
    (hpinned : b ∈ pins' → (f (c.buf i)).valid = true) :
    Cache c' d' (update h p ((h p).hold i b ph')) V' pins' := by
  subst hc'
  obtain ⟨hi, -⟩ := H.held p i b ph hst
  have hset : Settled (update h p ((h p).hold i b ph')) i → ∀ x, ph' ≠ .dirty x := by
    intro hs x hx
    exact hs p b x (by rw [update_self, Hands.hold_st_self, hx])
  have hsome : ((h p).st i).isSome := by rw [hst]; rfl
  refine H.change hi ?_ H.linked (fun j hj => set_buf_of_ne c f hj)
    (fun j hj => Hands.hold_st_of_ne _ _ _ hj) (fun j hj => ?_) (fun j e he => .inr he) hd hV
    hpins hnodup ?_ ?_ ?_ ?_ ?_ ?_ ?_ ?_ ?_
  · rw [Bcache.Has, set_buf_self, hf]; exact hi
  · simp only [Hands.refs, Hands.hold_st_of_ne _ _ _ hj]
    rfl
  · rw [set_buf_self, hf, Hands.refs_hold hsome]; exact H.users i p
  · intro q _; rw [set_buf_self, hf]
  · rw [set_buf_self, hrefcnt, hf]
  · refine H.lock_same ?_ (by rw [Hands.hold_st_self, hsome]; rfl)
    rw [set_buf_self, hf]
  · intro e ph'' he
    rw [Hands.hold_st_self] at he
    simp only [Option.some.injEq, Prod.mk.injEq] at he
    obtain ⟨rfl, rfl⟩ := he
    exact ⟨rfl, hok⟩
  · intro q hq e ph'' hq'
    exact absurd (H.exclusive hsome (by rw [hq']; rfl)) hq
  · intro hv hs; rw [set_buf_self] at hv ⊢; exact hdata hv (hset hs)
  · intro hb hs; exact hdisk hb (hset hs)
  · intro hb; rw [set_buf_self]; exact hpinned hb

end

end Cache

end Xv6.Share
