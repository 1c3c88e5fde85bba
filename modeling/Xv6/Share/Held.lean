import Xv6.Share.Cache

/-!
What a process can do with a buffer it holds: read its block, overwrite it, write it to
disk, and have the log pin or unpin it.
-/

namespace Xv6.Share

open Lib.Bytes Bio Function

variable {N : ℕ} {c : Bcache} {d V : Disk} {h : Fin N → Hands} {pins : List ℕ} {p : Fin N}
  {i : Fin NBUF} {b : ℕ}

namespace Cache

section

variable {ph : Phase} (H : Cache c d h V pins)

include H

lemma setData (hst : (h p).st i = some (b, ph)) (hv : (c.buf i).valid = true) (x : Block) :
    Cache (c.set i fun y => { y with data := x }) d
      (update h p ((h p).hold i b (.dirty x))) V pins := by
  obtain ⟨hi, -⟩ := H.held p i b ph hst
  refine H.keep hst rfl rfl (fun _ _ => rfl) (fun _ _ => rfl) (fun _ _ => Iff.rfl) H.nodup ?_ ?_ ?_
    ?_ ?_
  · rw [← hi.2]; exact H.refcnt i hi.1
  · simp [Phase.Ok, hv]
  · exact fun _ hx => absurd rfl (hx x)
  · exact fun _ hx => absurd rfl (hx x)
  · exact fun _ => hv

lemma fill (hst : (h p).st i = some (b, .raw)) :
    Cache (if (c.buf i).valid then c else c.set i fun y => { y with data := d b, valid := true }) d
      (update h p ((h p).hold i b .clean)) V pins := by
  obtain ⟨hi, -⟩ := H.held p i b .raw hst
  have hset := H.settled hst (by simp)
  have href : (c.buf i).refcnt = UInt32.ofNat (c.buf i).users.length + if b ∈ pins then 1 else 0 := by
    rw [← hi.2]; exact H.refcnt i hi.1
  split
  · rename_i hv
    refine H.keep (f := id) hst ?_ rfl (fun _ _ => rfl) (fun _ _ => rfl) (fun _ _ => Iff.rfl)
      H.nodup href hv ?_ ?_ (fun _ => hv)
    · simp [Bcache.set]
    · exact fun hv _ => H.data_eq hst (by simp) hv
    · intro hb _
      refine H.disk b hb fun j hj => ?_
      rw [H.has_inj hj hi]; exact hset
  · rename_i hv
    -- a pinned buffer is valid, so this one is not pinned
    have hb : b ∉ pins := fun hb => by
      obtain ⟨j, hj, hv'⟩ := H.pinned b hb
      rw [H.has_inj hj hi] at hv'
      exact hv hv'
    have hdisk : d b = V b := H.disk b hb fun j hj => by rw [H.has_inj hj hi]; exact hset
    exact H.keep hst rfl rfl (fun _ _ => rfl) (fun _ _ => rfl) (fun _ _ => Iff.rfl) H.nodup href
      (by simp [Phase.Ok]) (fun _ _ => hdisk) (fun _ _ => hdisk) (fun _ => rfl)

lemma write {x : Block} (hst : (h p).st i = some (b, .dirty x)) :
    Cache c (update d b x) (update h p ((h p).hold i b .synced))
      (update V b x) pins := by
  obtain ⟨hi, hv, hx⟩ := H.held p i b _ hst
  refine H.keep (f := id) hst ?_ rfl (fun e he => update_of_ne he _ _)
    (fun e he => update_of_ne he _ _) (fun _ _ => Iff.rfl) H.nodup ?_ ?_ ?_ ?_ (fun _ => hv)
  · simp [Bcache.set]
  · rw [← hi.2]; exact H.refcnt i hi.1
  · exact ⟨hv, by simp⟩
  · intro _ _; simpa using hx
  · intro _ _; simp

lemma pin (hst : (h p).st i = some (b, ph)) (hv : (c.buf i).valid = true) (hb : b ∉ pins) :
    Cache (c.set i incRef) d (update h p ((h p).hold i b .clean))
      (update V b (c.buf i).data) (pins ++ [b]) := by
  obtain ⟨hi, -⟩ := H.held p i b _ hst
  have href := H.refcnt i hi.1
  rw [hi.2, if_neg hb, UInt32.add_zero] at href
  refine H.keep hst rfl rfl (fun _ _ => rfl) (fun e he => update_of_ne he _ _)
    (fun e he => by simp [he]) ?_ ?_ ?_ ?_ ?_ (fun _ => hv)
  · rw [List.nodup_append]
    exact ⟨H.nodup, by simp, fun a ha e he => by
      rw [List.mem_singleton] at he; rintro rfl; exact hb (he ▸ ha)⟩
  · simp [incRef, href]
  · simpa [Phase.Ok, incRef] using hv
  · intro _ _; simp [incRef]
  · intro hb'; simp at hb'

lemma absorb (hst : (h p).st i = some (b, ph)) (hv : (c.buf i).valid = true) (hb : b ∈ pins) :
    Cache c d (update h p ((h p).hold i b .clean))
      (update V b (c.buf i).data) pins := by
  obtain ⟨hi, -⟩ := H.held p i b _ hst
  have href := H.refcnt i hi.1
  rw [hi.2] at href
  refine H.keep (f := id) hst ?_ rfl (fun _ _ => rfl) (fun e he => update_of_ne he _ _)
    (fun _ _ => Iff.rfl) H.nodup href hv ?_ ?_ (fun _ => hv)
  · simp [Bcache.set]
  · intro _ _; simp
  · exact fun hb' => absurd hb hb'

end

lemma unpin (H : Cache c d h V (b :: pins)) (hst : (h p).st i = some (b, .synced)) :
    Cache (c.set i decRef) d (update h p ((h p).hold i b .synced)) V pins := by
  obtain ⟨hi, hv, hd⟩ := H.held p i b _ hst
  obtain ⟨hb, hnd⟩ := List.nodup_cons.mp H.nodup
  have href := H.refcnt i hi.1
  rw [hi.2, if_pos (by simp)] at href
  refine H.keep hst rfl rfl (fun _ _ => rfl) (fun _ _ => rfl) (fun e he => by simp [he]) hnd ?_ ?_ ?_
    ?_ (fun h' => absurd h' hb)
  · simp [decRef, href, hb]
  · exact ⟨by simpa [decRef] using hv, hd⟩
  · exact fun _ _ => H.data_eq hst (by simp) hv
  · exact fun _ _ => hd

end Cache

end Xv6.Share
