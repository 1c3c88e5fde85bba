import Xv6.Share.Cache

/-!
Getting a buffer from the cache and giving it back: the steps of `bget` and `brelse`.
-/

namespace Xv6.Share

open Lib.Bytes Lib.Conc Bio Function

variable {N : ℕ} {c : Bcache} {d V : Disk} {h : Fin N → Hands} {pins : List ℕ} {p : Fin N}
  {i : Fin NBUF} {b : ℕ}

namespace Cache

lemma ok_of_eq {c' : Bcache} {ph : Phase} (hok : ph.Ok c d V i b)
    (hv : (c'.buf i).valid = (c.buf i).valid) (hd : (c'.buf i).data = (c.buf i).data) :
    ph.Ok c' d V i b := by
  cases ph with
  | raw => trivial
  | clean => simpa only [Phase.Ok, hv] using hok
  | dirty x => simpa only [Phase.Ok, hv, hd] using hok
  | synced => simpa only [Phase.Ok, hv] using hok

section

variable (H : Cache c d h V pins)

include H

/-- Process `p` counts itself in or out at buffer `i`, whose lock it does not hold. -/
lemma recount {c' : Bcache} {f : Buf → Buf} {k : Hands} (hi : c.Has ROOTDEV b i) (hlink : Linked c')
    (hc' : c'.buf = (c.set i f).buf)
    (hf : f (c.buf i) = { c.buf i with
      refcnt := (f (c.buf i)).refcnt, users := (f (c.buf i)).users }) (hst : k.st = (h p).st)
    (hrefs : ∀ j, j ≠ i → k.refs j = (h p).refs j)
    (hwant : ∀ j e, k.want = some (j, e) → (j = i ∧ e = b) ∨ (h p).want = some (j, e))
    (husers : (f (c.buf i)).users.count p.val = k.refs i)
    (husers' : ∀ q, q ≠ p.val → (f (c.buf i)).users.count q = (c.buf i).users.count q)
    (hrefcnt : (f (c.buf i)).refcnt =
      UInt32.ofNat (f (c.buf i)).users.length + if b ∈ pins then 1 else 0) :
    Cache c' d (update h p k) V pins := by
  have hbuf : c'.buf i = f (c.buf i) := by rw [hc', set_buf_self]
  have hvalid : (c'.buf i).valid = (c.buf i).valid := by rw [hbuf, hf]
  have hdata : (c'.buf i).data = (c.buf i).data := by rw [hbuf, hf]
  refine H.change hi ?_ hlink (fun j hj => by rw [hc', set_buf_of_ne c f hj]) (fun j _ => by rw [hst])
    hrefs hwant (fun _ _ => rfl) (fun _ _ => rfl) (fun _ _ => Iff.rfl) H.nodup ?_ ?_ ?_ ?_ ?_ ?_ ?_
    ?_ ?_
  · rw [Bcache.Has, hbuf, hf]; exact hi
  · rw [hbuf]; exact husers
  · intro q hq; rw [hbuf]; exact husers' q hq
  · rw [hbuf]; exact hrefcnt
  · refine H.lock_same ?_ (by rw [hst])
    rw [hbuf, hf]
  · intro e ph he
    rw [hst] at he
    obtain ⟨hi2, hok⟩ := H.held p i e ph he
    have heb : e = b := hi2.2.symm.trans hi.2
    subst heb
    exact ⟨rfl, ok_of_eq hok hvalid hdata⟩
  · exact fun q _ e ph _ hok => ok_of_eq hok hvalid hdata
  · intro hv hs
    rw [hdata, ← hi.2]
    exact H.data i hi.1 (hvalid ▸ hv) ((settled_iff (by rw [hst])).mp hs)
  · intro hb hs
    refine H.disk b hb fun j hj => ?_
    rw [H.has_inj hj hi]
    exact (settled_iff (by rw [hst])).mp hs
  · intro hb
    obtain ⟨j, hj, hv⟩ := H.pinned b hb
    rw [hvalid, ← H.has_inj hj hi]; exact hv

lemma hit (hi : c.Has ROOTDEV b i) (hw : (h p).want = none) :
    Cache (c.set i (getRef p.val)) d
      (update h p { h p with want := some (i, b) }) V pins := by
  refine H.recount (f := getRef p.val) hi (H.linked.set i _) rfl rfl rfl (fun j hj => ?_)
    (fun j e he => ?_) ?_ (fun q hq => ?_) ?_
  · have hji : i ≠ j := fun e => hj e.symm
    simp [Hands.refs, hw, hji]
  · simp only [Option.some.injEq, Prod.mk.injEq] at he
    exact .inl ⟨he.1.symm, he.2.symm⟩
  · have := H.users i p
    simp only [getRef, List.count_cons_self, this]
    simp only [Hands.refs, hw]
    simp
    omega
  · exact List.count_cons_of_ne fun e => hq e.symm
  · have href := H.refcnt i hi.1
    rw [hi.2] at href
    simp only [getRef, href, List.length_cons, ofNat_succ]
    rw [UInt32.add_assoc, UInt32.add_assoc, UInt32.add_comm 1]

/-- Process `p` takes or gives back the lock of buffer `i`, which no other process has. -/
lemma relock {k : Hands} {o : Option ℕ} (hi : c.Has ROOTDEV b i)
    (hothers : ∀ q, q ≠ p → (h q).st i = none) (hsettled : Settled h i)
    (hst : ∀ j, j ≠ i → k.st j = (h p).st j) (hrefs : ∀ j, k.refs j = (h p).refs j)
    (hwant : ∀ j e, k.want = some (j, e) → (h p).want = some (j, e))
    (ho : o = if (k.st i).isSome then some p.val else none)
    (hraw : ∀ e ph, k.st i = some (e, ph) → e = b ∧ ph = .raw) :
    Cache (c.set i fun y => { y with lock := o }) d (update h p k) V pins := by
  refine H.change hi ?_ H.linked (fun j hj => set_buf_of_ne c _ hj) hst (fun j _ => hrefs j)
    (fun j e he => .inr (hwant j e he)) (fun _ _ => rfl) (fun _ _ => rfl) (fun _ _ => Iff.rfl) H.nodup
    ?_ ?_ ?_ ?_ ?_ ?_ ?_ ?_ ?_
  · simpa [Bcache.Has] using hi
  · rw [set_buf_self, H.users i p, hrefs]
  · intro q _; rw [set_buf_self]
  · rw [set_buf_self, ← hi.2]; exact H.refcnt i hi.1
  · intro q
    rw [set_buf_self, ho]
    constructor
    · intro hq
      split at hq
      · exact ⟨p, Option.some.inj hq, by rwa [update_self]⟩
      · cases hq
    · rintro ⟨p', rfl, hp'⟩
      by_cases hpp : p' = p
      · rw [hpp, update_self] at hp'
        rw [hpp, if_pos hp']
      · rw [update_of_ne hpp, hothers p' hpp] at hp'
        cases hp'
  · intro e ph he
    obtain ⟨rfl, rfl⟩ := hraw e ph he
    exact ⟨rfl, trivial⟩
  · intro q hq e ph hq'
    rw [hothers q hq] at hq'; cases hq'
  · intro hv _
    rw [set_buf_self] at hv ⊢
    rw [← hi.2]
    exact H.data i hi.1 hv hsettled
  · intro hb _
    refine H.disk b hb fun j hj => ?_
    rw [H.has_inj hj hi]; exact hsettled
  · intro hb
    obtain ⟨j, hj, hv⟩ := H.pinned b hb
    rw [set_buf_self, ← H.has_inj hj hi]; exact hv

lemma acquire (hw : (h p).want = some (i, b)) (hl : (c.buf i).lock = none) :
    (h p).st i = none ∧
    Cache (c.set i fun y => { y with lock := some p.val }) d
      (update h p { (h p).hold i b .raw with want := none }) V pins := by
  have hnone : ∀ q, (h q).st i = none := fun q => by
    by_contra hne
    have := (H.lock i q).mpr ⟨q, rfl, Option.isSome_iff_ne_none.mpr hne⟩
    rw [hl] at this
    cases this
  refine ⟨hnone p, H.relock (H.want p i b hw) (fun q _ => hnone q)
    (fun q e x hq => by rw [hnone q] at hq; cases hq) (fun j hj => Hands.hold_st_of_ne _ _ _ hj)
    (fun j => ?_) (fun j e he => by cases he) (by simp) fun e ph he => ?_⟩
  · by_cases hj : j = i
    · subst hj
      simp only [Hands.refs, hw, hnone p, Hands.hold_st_self]
      simp
      rfl
    · have hji : i ≠ j := fun e => hj e.symm
      simp only [Hands.refs, Hands.hold_st_of_ne _ _ _ hj, hw]
      simp only [Option.map_none, Option.map_some, Option.some.injEq, hji, reduceCtorEq, if_false]
      rfl
  · rw [Hands.hold_st_self] at he
    simp only [Option.some.injEq, Prod.mk.injEq] at he
    exact ⟨he.1.symm, he.2.symm⟩

lemma unlock {ph : Phase} (hst : (h p).st i = some (b, ph)) (hph : ∀ x, ph ≠ .dirty x)
    (hg : (h p).gone = none) :
    Cache (c.set i fun y => { y with lock := none }) d
      (update h p { (h p).drop i with gone := some i }) V pins := by
  refine H.relock (H.held p i b ph hst).1 (fun q hq => ?_) (H.settled hst hph)
    (fun j hj => Hands.drop_st_of_ne _ hj) (fun j => ?_) (fun j e he => he) (by simp) fun e ph' he => ?_
  · by_contra hne
    exact hq (H.exclusive (by rw [hst]; rfl) (Option.isSome_iff_ne_none.mpr hne))
  · by_cases hj : j = i
    · subst hj
      simp only [Hands.refs, hst, hg, Hands.drop_st_self]
      simp
      rfl
    · have hji : i ≠ j := fun e => hj e.symm
      simp only [Hands.refs, Hands.drop_st_of_ne _ hj, hg]
      simp only [Option.some.injEq, hji, reduceCtorEq, if_false]
      rfl
  · rw [Hands.drop_st_self] at he; cases he

lemma release (hg : (h p).gone = some i) :
    Cache (brelseCs c p.val i) d (update h p { h p with gone := none }) V pins := by
  have hcount : 0 < (c.buf i).users.count p.val := by
    rw [H.users i p, Hands.refs, if_pos hg]
    omega
  have hmem := List.count_pos_iff.mp hcount
  have hdev : (c.buf i).dev = ROOTDEV := by
    by_contra hne
    rw [(H.foreign i hne).2] at hmem
    cases hmem
  have hlen := List.length_erase_add_one hmem
  refine H.recount (b := (c.buf i).blockno) (f := putRef p.val) ⟨hdev, rfl⟩
    (Linked.brelseCs H.linked p.val i) (brelseCs_buf c p.val i) rfl rfl (fun j hj => ?_)
    (fun j e he => .inr he) ?_ (fun q hq => ?_) ?_
  · have hji : i ≠ j := fun e => hj e.symm
    simp [Hands.refs, hg, hji]
  · have := H.users i p
    simp only [putRef, List.count_erase_self, this]
    simp [Hands.refs, hg]
  · exact List.count_erase_of_ne hq
  · have href := H.refcnt i hdev
    rw [← hlen, ofNat_succ] at href
    simp only [putRef, href]
    rw [UInt32.add_assoc, UInt32.add_comm 1, ← UInt32.add_assoc]
    simp

/-- A buffer that nobody uses is given to a block that has none. -/
lemma assign (hno : ∀ j, ¬ c.Has ROOTDEV b j) (hz : (c.buf i).refcnt = 0)
    (hu : (c.buf i).users = []) (hnp : (c.buf i).dev = ROOTDEV → (c.buf i).blockno ∉ pins) :
    Cache (c.set i fun y => { y with dev := ROOTDEV, blockno := b, valid := false }) d h V pins := by
  have hst : ∀ q, (h q).st i = none := H.st_none hu
  set c' := c.set i fun y => { y with dev := ROOTDEV, blockno := b, valid := false }
  have hbuf : ∀ j, j ≠ i → c'.buf j = c.buf j := fun j hj => set_buf_of_ne c _ hj
  have hbi : c'.buf i = { c.buf i with dev := ROOTDEV, blockno := b, valid := false } :=
    set_buf_self ..
  have hsame : ∀ j, (c'.buf j).users = (c.buf j).users ∧ (c'.buf j).lock = (c.buf j).lock := by
    intro j
    by_cases hji : j = i
    · rw [hji, hbi]
      exact ⟨rfl, rfl⟩
    · rw [hbuf j hji]
      exact ⟨rfl, rfl⟩
  have hb : b ∉ pins := fun hb => by
    obtain ⟨j, hj, -⟩ := H.pinned b hb
    exact hno j hj
  have hhas : ∀ e j, j ≠ i → (c'.Has ROOTDEV e j ↔ c.Has ROOTDEV e j) :=
    fun e j hj => by simp only [Bcache.Has, hbuf j hj]
  constructor
  case linked => exact H.linked.set i _
  case uniq =>
    intro j l hj hl hjl
    by_cases hji : j = i <;> by_cases hli : l = i
    · rw [hji, hli]
    · subst hji
      rw [hbuf l hli] at hl hjl
      rw [hbi] at hjl
      exact absurd ⟨hl, hjl.symm⟩ (hno l)
    · subst hli
      rw [hbuf j hji] at hj hjl
      rw [hbi] at hjl
      exact absurd ⟨hj, hjl⟩ (hno j)
    · rw [hbuf j hji] at hj hjl
      rw [hbuf l hli] at hl hjl
      exact H.uniq j l hj hl hjl
  case foreign =>
    intro j hj
    by_cases hji : j = i
    · subst hji; rw [hbi] at hj; exact absurd rfl hj
    · rw [hbuf j hji] at hj ⊢; exact H.foreign j hj
  case users => simpa only [hsame] using H.users
  case usersLt => simpa only [hsame] using H.usersLt
  case refcnt =>
    intro j hj
    by_cases hji : j = i
    · subst hji
      rw [hbi]
      simp [hb, hu, hz]
    · rw [hbuf j hji] at hj ⊢; exact H.refcnt j hj
  case lock => simpa only [hsame] using H.lock
  case want =>
    intro q j e hq
    refine (hhas e j ?_).mpr (H.want q j e hq)
    rintro rfl
    have := H.refs_zero hu q
    simp [Hands.refs, hq] at this
  case held =>
    intro q j e ph hq
    have hji : j ≠ i := fun hji => by rw [hji, hst q] at hq; cases hq
    obtain ⟨hh, hok⟩ := H.held q j e ph hq
    exact ⟨(hhas e j hji).mpr hh, ok_of_eq hok (by rw [hbuf j hji]) (by rw [hbuf j hji])⟩
  case data =>
    intro j hj hv hs
    by_cases hji : j = i
    · subst hji; rw [hbi] at hv; cases hv
    · rw [hbuf j hji] at hj hv ⊢
      exact H.data j hj hv hs
  case disk =>
    intro e he hs
    refine H.disk e he fun j hj => ?_
    by_cases hji : j = i
    · intro q e' x hq
      rw [hji, hst q] at hq
      cases hq
    · exact hs j ((hhas e j hji).mpr hj)
  case pinned =>
    intro e he
    obtain ⟨j, hj, hv⟩ := H.pinned e he
    have hji : j ≠ i := by
      rintro rfl
      exact hnp hj.1 (hj.2.symm ▸ he)
    exact ⟨j, (hhas e j hji).mpr hj, by rw [hbuf j hji]; exact hv⟩
  case nodup => exact H.nodup

-- a buffer is recycled by giving it to the block and then counting the process in
lemma recycle (hN : 3 * N + 1 < 2 ^ 32) (hno : ∀ j, ¬ c.Has ROOTDEV b j) (hz : (c.buf i).refcnt = 0)
    (hw : (h p).want = none) :
    Cache (c.set i (Bio.recycle p.val ROOTDEV b)) d
      (update h p { h p with want := some (i, b) }) V pins := by
  obtain ⟨hu, hnp⟩ := H.of_refcnt_zero hN hz
  have hassign := H.assign hno hz hu hnp
  have hhit := hassign.hit (p := p) (i := i) (b := b) (by rw [Bcache.Has, set_buf_self]; exact ⟨rfl, rfl⟩) hw
  rwa [set_set, set_congr _ (g := Bio.recycle p.val ROOTDEV b)] at hhit
  simp [getRef, Bio.recycle, hz]

lemma pins_lt (hi : c.Has ROOTDEV b i) (hb : b ∉ pins) :
    pins.length < NBUF := by
  classical
  choose! f hf _ using H.pinned
  have hinj : Set.InjOn f (pins.toFinset : Set ℕ) := fun a ha e he hae => by
    have ha' := hf a (by simpa using ha)
    have he' := hf e (by simpa using he)
    rw [← ha'.2, ← he'.2, hae]
  have hi' : i ∉ pins.toFinset.image f := fun him => by
    obtain ⟨a, ha, rfl⟩ := Finset.mem_image.mp him
    have ha' : a ∈ pins := by simpa using ha
    exact hb (by rw [← hi.2, (hf a ha').2]; exact ha')
  have hcard : (insert i (pins.toFinset.image f)).card ≤ NBUF :=
    (Finset.card_le_univ _).trans_eq (Fintype.card_fin _)
  rw [Finset.card_insert_of_notMem hi', Finset.card_image_of_injOn hinj,
    List.toFinset_card_of_nodup H.nodup] at hcard
  omega

end

end Cache

lemma cache_binit (d : Disk) : Cache binit d (fun _ : Fin N => Hands.empty) d [] := by
  constructor
  case linked => exact linked_binit
  case uniq => exact fun i j hi => absurd hi (by simp [binit_buf])
  case foreign => exact fun i _ => by simp [binit_buf]
  case users => exact fun i p => by simp [binit_buf, Hands.refs, Hands.empty]
  case usersLt => exact fun i q hq => by simp [binit_buf] at hq
  case lock => exact fun i q => by simp [binit_buf, Hands.empty]
  case want => exact fun p i b hw => by simp [Hands.empty] at hw
  case held => exact fun p i b ph hs => by simp [Hands.empty] at hs
  case refcnt | data => exact fun i hi => absurd hi (by simp [binit_buf])
  case disk => exact fun _ _ _ => rfl
  case pinned => exact fun b hb => by simp at hb
  case nodup => exact List.nodup_nil

end Xv6.Share
