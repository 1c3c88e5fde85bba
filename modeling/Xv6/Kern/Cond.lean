import Xv6.Kern.Switch

/-!
Processes that wait for a condition, and those that make it true, keep the invariant.
-/

namespace Xv6.Kern

open Lib.Wp Lib.Conc
open Function (update update_eq_self update_of_ne update_self)

variable {e : Env} {s s' : State} {ℓ : Thread → Ghost} {l l' : Ghost} {i p n k : ℕ}

lemma Inv.setWait {W : Wait} (h : Inv e s ℓ) (ht : turn (.proc p) s) (hl : ℓ (.proc p) = l)
    (hproc : s'.proc = s.proc) (hinit : s'.initproc = s.initproc)
    (hcpu : s'.cpu = s.cpu) (hheld : s'.held = s.held) (hlive : s'.live = s.live)
    (hctx : s'.ctx = s.ctx) (hlog : s'.log = s.log) (hdeeds : s'.deeds = s.deeds)
    (hwaiting : s'.waiting = update s.waiting p W.cond)
    (hwaking : s'.waking = update s.waking p (W.sig.map Prod.fst))
    (hgood : ∀ n i, i ≠ p → ((ℓ (.proc i)).wait.pre = some n ∨
        (ℓ (.proc i)).wait.parked = some n ∧ (s.proc i).state = .sleeping) →
      Good s (fun u => (ℓ u).wait) n i →
      Good s' (update (fun u => (ℓ u).wait) (.proc p) W) n i)
    (hawake : l.run.st = .running)
    (hpre : ∀ n, W.pre = some n → (e.lk n ∈ l.run.locks ∨ .proc p ∈ l.run.locks) ∧
        Good s' (update (fun u => (ℓ u).wait) (.proc p) W) n p)
    (hsig : ∀ n k, W.sig = some (n, k) → e.lk n ∈ l.run.locks) (hchan : W.chan = l.wait.chan)
    (hparked : W.parked = l.wait.parked) :
    Inv e s' (update ℓ (.proc p) (l.setWait W)) := by
  have hst := h.state_eq ht hl
  have hlive' := Inv.live_cur ht
  rw [hawake] at hst
  have hmild : Mild s s' := by
    refine ⟨hdeeds, hinit, fun j => by rw [hproc], fun j => by rw [hproc], fun j => by rw [hproc],
      fun j => by rw [hproc], fun j => by rw [hproc], fun j hj => ?_⟩
    have hjp : j ≠ p := by
      rintro rfl
      have := hj.1
      rw [hproc, hst] at this
      cases this
    rw [InWait, hproc, hwaiting, update_of_ne hjp] at hj
    exact hj
  refine h.mild ht hl hlive hctx (fun u b _ => by rw [hproc]) rfl rfl ?_ ?_ ?_ hmild rfl
  · rw [part_same hl Ghost.run]
    exact h.base.frame hlive hheld hcpu hctx fun i => by rw [hproc]
  · rw [part_same hl Ghost.said]
    exact hmild.told h.told h.kin hlog fun i => by rw [hproc]
  · rw [part_same hl Ghost.run, part]
    refine h.sleeps.act hwaiting hwaking (fun n i hi hn => hgood n i hi (by rwa [hproc] at hn))
      (fun i _ => by rw [hproc]; exact id) (fun i _ h1 h2 => by rw [hproc]; exact ⟨rfl, h1, h2⟩)
      (fun i _ => by rw [hlive]; exact id) (fun _ _ => rfl) ?_ ?_ ?_ ?_ ?_
    · intro n hn
      rw [hl]
      exact ⟨(hpre n hn).1, ⟨_, by rw [hlive]; exact hlive'⟩, (hpre n hn).2⟩
    · intro n hn
      refine ⟨(h.sleeps.parked p n (by rw [hl, ← hparked]; exact hn)).1, fun hs => ?_⟩
      rw [hproc, hst] at hs
      cases hs
    · intro n _ hs
      rw [hproc, hst] at hs
      cases hs
    · intro n k hnk
      rw [hl]
      exact ⟨hsig n k hnk, _, by rw [hlive]; exact hlive'⟩
    · intro ch hch
      rw [hproc]
      exact h.sleeps.chan p ch (by rw [hl, ← hchan]; exact hch)

lemma setWaiting_ok {c : Option ℕ} (hst : l.run.st = .running) (hpre : l.wait.pre = none)
    (hsig : l.wait.sig = none) :
    Ok e (.proc p) (write fun s => { s with waiting := update s.waiting p c })
      (fun _ l' => l' = l.setWait (l.wait.setCond c)) l := by
  refine write_ok fun s ℓ h hl ht => ?_
  refine h.setWait ht hl rfl rfl rfl rfl rfl rfl rfl rfl rfl
    (h.sleeps.waking_self (by rw [hl]; rfl)) (fun n i _ _ hg => good_update (by rw [hl]; rfl) hg rfl)
    hst ?_ ?_ rfl rfl
  · intro n hn
    change l.wait.pre = some n at hn
    rw [hpre] at hn
    cases hn
  · intro n k hnk
    change l.wait.sig = some (n, k) at hnk
    rw [hsig] at hnk
    cases hnk

/-- A process looks at a condition, with its lock held. If it is false, it stays so, or the
process will be woken. -/
lemma testCond_ok (hst : l.run.st = .running) (hlk : e.lk n ∈ l.run.locks)
    (hsig : l.wait.sig = none) :
    Ok e (.proc p) (read fun s => s.cond n) (fun b l' =>
      l' = if b then l else l.setWait (l.wait.setPre (some n))) l := by
  refine safe_turn fun s ℓ h hl ht => ?_
  simp only [wp_map, wp_get]
  cases hb : s.cond n with
  | true =>
    refine ⟨l, ?_, by simp⟩
    rw [← hl, update_eq_self]
    exact h
  | false =>
    refine ⟨l.setWait (l.wait.setPre (some n)), ?_, by simp⟩
    refine h.setWait ht hl rfl rfl rfl rfl rfl rfl rfl rfl (h.sleeps.waiting_self (by rw [hl]; rfl))
      (h.sleeps.waking_self (by rw [hl]; rfl))
      (fun n i _ _ hg => good_update (by rw [hl]; rfl) hg rfl) hst ?_ ?_ rfl rfl
    · rintro m ⟨⟩
      exact ⟨.inl hlk, .inl hb⟩
    · intro m k hmk
      change l.wait.sig = some (m, k) at hmk
      rw [hsig] at hmk
      cases hmk

lemma clearCond_ok (hst : l.run.st = .running) (hpre : l.wait.pre = none)
    (hsig : l.wait.sig = none) :
    Ok e (.proc p) (write fun s => { s with cond := update s.cond n false })
      (fun _ l' => l' = l) l := by
  refine write_ok fun s ℓ h hl ht => ?_
  refine h.setWait (W := l.wait) ht hl rfl rfl rfl rfl rfl rfl rfl rfl
    (h.sleeps.waiting_self (by rw [hl])) (h.sleeps.waking_self (by rw [hl]))
    ?_ hst ?_ ?_ rfl rfl
  · intro m i _ _ hg
    by_cases hmn : m = n
    · refine .inl ?_
      rw [hmn]
      exact update_self _ _ _
    · refine Sleeps.good_of_sig (s := s) (update_of_ne hmn _ _) (fun a b hab hb => ?_) hg
      refine ⟨a, b, ?_, hb⟩
      rw [← hl, update_eq_self]
      exact hab
  · intro m hm
    rw [hpre] at hm
    cases hm
  · intro m k hmk
    rw [hsig] at hmk
    cases hmk

/-- A process makes a condition true, with its lock held: it is going to wake all that wait. -/
lemma setCond_ok (hst : l.run.st = .running) (hpre : l.wait.pre = none)
    (hsig : l.wait.sig = none) (hlk : e.lk n ∈ l.run.locks) :
    Ok e (.proc p) (write fun s => { s with
        cond := update s.cond n true, waking := update s.waking p (some n) })
      (fun _ l' => l' = l.setSig (some (n, 0))) l := by
  refine write_ok fun s ℓ h hl ht => ?_
  refine h.setWait (W := l.wait.setSig (some (n, 0))) ht hl rfl rfl rfl rfl rfl rfl rfl rfl
    (h.sleeps.waiting_self (by rw [hl]; rfl)) rfl ?_ hst ?_ ?_ rfl rfl
  · intro m i _ _ hg
    by_cases hmn : m = n
    · exact .inr ⟨p, 0, by rw [update_self, hmn]; rfl, Nat.zero_le _⟩
    · refine Sleeps.good_of_sig (s := s) (update_of_ne hmn _ _) (fun a b hab hb => ?_) hg
      have hap : a ≠ p := by
        rintro rfl
        rw [hl, hsig] at hab
        cases hab
      exact ⟨a, b, by rw [update_of_ne (by simpa using hap)]; exact hab, hb⟩
  · intro m hm
    change l.wait.pre = some m at hm
    rw [hpre] at hm
    cases hm
  · rintro m k ⟨⟩
    exact hlk

lemma endWaking_ok (hst : l.run.st = .running) (hpre : l.wait.pre = none)
    (hsig : l.wait.sig = some (n, NPROC)) :
    Ok e (.proc p) (write fun s => { s with waking := update s.waking p none })
      (fun _ l' => l' = l.setSig none) l := by
  refine write_ok fun s ℓ h hl ht => ?_
  refine h.setWait (W := l.wait.setSig none) ht hl rfl rfl rfl rfl rfl rfl rfl rfl
    (h.sleeps.waiting_self (by rw [hl]; rfl)) rfl ?_ hst ?_ ?_ rfl rfl
  · intro m i hip hi hg
    -- a process that waits has a slot in the table
    have hlt : i < NPROC := by
      rcases hi with hi | ⟨-, hi⟩
      · obtain ⟨-, ⟨c, hc⟩, -⟩ := h.sleeps.pre i m hi
        obtain ⟨h1, h2⟩ := h.base.st c i hc
        exact h.kin.lt_of_state (by rw [h1]; exact h2)
      · exact h.kin.lt_of_state (by rw [hi]; simp)
    refine Sleeps.good_of_sig (s := s) rfl (fun a b hab hb => ?_) hg
    have hap : a ≠ p := by
      rintro rfl
      rw [hl, hsig] at hab
      cases hab
      omega
    exact ⟨a, b, by rw [update_of_ne (by simpa using hap)]; exact hab, hb⟩
  · intro m hm
    change l.wait.pre = some m at hm
    rw [hpre] at hm
    cases hm
  · rintro m k ⟨⟩

/-! ### The loops -/

/-- The process has no lock, and knows nothing of others: it is at a system call boundary. -/
structure AtCall (l : Ghost) : Prop extends Plain l where
  sig : l.wait.sig = none
  cond : l.wait.cond = none
  chan : l.wait.chan = none

lemma waitFor_ok {take : Bool} (h : AtCall l) (hwatch : l.watch = {}) :
    Ok e (.proc p) (waitFor e n take k) (fun _ l' => l' = l) l := by
  refine myproc_then ?_
  refine acquire_then fun hk => ?_
  refine then_ok (setWaiting_ok h.st h.pre h.sig) fun _ => ?_
  have hmem : e.lk n ∈ (l.lock (e.lk n)).run.locks := Finset.mem_insert_self _ _
  refine then_ok (x := Prog.loop hang _ k ()) (r := (l.lock (e.lk n)).setWait
    ((l.lock (e.lk n)).wait.setCond (some n))) ?_ fun _ => ?_
  · refine safe_rounds (fun _ l' => l' = (l.lock (e.lk n)).setWait
      ((l.lock (e.lk n)).wait.setCond (some n))) rfl (fun _ => hang_ok) ?_
    rintro _ l' rfl
    refine Safe.bind (testCond_ok h.st hmem h.sig) ?_
    rintro b l' rfl
    cases b with
    | true => exact rfl
    | false =>
      refine then_ok (sleep_ok ⟨h.st, h.seen, h.pick, h.on, h.busy, h.sig, h.parked, rfl, ?_,
        hmem, ?_, ?_⟩) fun _ => ?_
      · rintro m ⟨⟩
        exact ⟨rfl, rfl⟩
      · -- it does not sleep in `wait`
        rintro - ⟨⟩
      · intro k hk
        change l.watch.Needs k at hk
        rw [hwatch] at hk
        exact absurd hk (needs_empty k)
      · obtain ⟨run, family, said, ⟨cond, pre, parked, chan, sig⟩, watch⟩ := l
        cases h.pre
        cases h.parked
        cases h.chan
        cases hwatch
        exact rfl
  · refine then_ok (setWaiting_ok h.st h.pre h.sig) fun _ => ?_
    have hback : ((l.lock (e.lk n)).setWait ((l.lock (e.lk n)).wait.setCond (some n))).setWait
        (((l.lock (e.lk n)).setWait ((l.lock (e.lk n)).wait.setCond (some n))).wait.setCond none) =
        l.lock (e.lk n) := by
      obtain ⟨run, family, said, ⟨cond, pre, parked, chan, sig⟩, watch⟩ := l
      cases h.cond
      rfl
    rw [hback]
    refine then_ok (r := l.lock (e.lk n)) ?_ fun _ => ?_
    · exact safe_doIf (fun _ => clearCond_ok h.st h.pre h.sig) fun _ => rfl
    · exact h.toPlain.unlock_ok hk (by simp [h.sig])

lemma signal_ok (h : AtCall l) : Ok e (.proc p) (signal e n) (fun _ l' => l' = l) l := by
  refine myproc_then ?_
  refine acquire_then fun hk => ?_
  have hmem : e.lk n ∈ (l.lock (e.lk n)).run.locks := Finset.mem_insert_self _ _
  refine then_ok (setCond_ok h.st h.pre h.sig hmem) fun _ => ?_
  refine then_ok (wakeup_sig ⟨h.st, h.seen, h.pick, h.on, h.busy, h.pre, h.parked,
    (h.lock (e.lk n)).needs, h.named⟩ rfl hmem)
    fun _ => ?_
  refine then_ok (endWaking_ok h.st h.pre rfl) fun _ => ?_
  refine of_ghost ?_ (h.toPlain.unlock_ok hk (by simp [h.sig]))
  obtain ⟨run, family, said, ⟨cond, pre, parked, chan, sig⟩, watch⟩ := l
  cases h.sig
  rfl

lemma unset_ok (h : AtCall l) : Ok e (.proc p) (unset e n) (fun _ l' => l' = l) l := by
  refine acquire_then fun hk => ?_
  refine then_ok (clearCond_ok h.st h.pre h.sig) fun _ => ?_
  exact h.toPlain.unlock_ok hk (by simp [h.sig])

end Xv6.Kern
