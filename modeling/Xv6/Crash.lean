import Xv6.Transaction
import Mathlib.Logic.Relation

/-!
Stopping the machine: crash atomicity of the redo log.

A stop is described by a prefix of the writes a run makes. After it only the disk is left,
and the next boot runs recovery, which may be stopped in turn.
-/

namespace Xv6.Crash

open Lib.Wp Lib.Bytes Bio LogState Io IoSpec Redo Commit Recovery Transaction

/-- What `x` has written and logged when it returns or stops. -/
def traceOf {α : Type} (x : IoM α) (s : Store) : List Event :=
  match x { s with trace := [] } with
  | .ok _ s' => s'.trace
  | .error _ s' => s'.trace

/-- Power can fail with disk `d` while `x` runs from `s`. -/
def StopsAt {α : Type} (x : IoM α) (s : Store) (d : Disk) : Prop :=
  ∃ p, p <+: traceOf x s ∧ d = replay p s.disk

/-- Power can fail with disk `d'` during the recovery of a boot from disk `d`. -/
def Restarts (start size : ℕ) (d d' : Disk) : Prop :=
  ∃ pid, StopsAt (initlog ROOTDEV start size : IoM Unit) (boot pid d) d'

/-- Power fails with disk `d` in the first boot from `d₀`, or when the first `r`
transactions of `ts` have returned and while the others run. -/
inductive Stopped (start size : ℕ) (d₀ : Disk) (ts : List Txn) : ℕ → Disk → Prop
  | booting {d : Disk} (h : Restarts start size d₀ d) : Stopped start size d₀ ts 0 d
  | running {pid r : ℕ} {s : Store} {d : Disk} (hr : r ≤ ts.length)
      (hrun : (do initlog ROOTDEV start size; forM (ts.take r) transaction : IoM Unit)
        (boot pid d₀) = .ok () s)
      (hstop : StopsAt (forM (ts.drop r) transaction) s d) : Stopped start size d₀ ts r d

/-- The disk after all the writes of some transactions. -/
def applyAll (ts : List Txn) (d : Disk) : Disk := ts.foldl (fun d w => applyTxn w d) d

variable {start size : ℕ} {t d : Disk} {s : Store}

lemma StopsAt.of_hist {α : Type} {x : IoM α} {Φ : Disk → Prop} (h : StopsAt x s d)
    (hx : wp x (fun _ s' => Hist s.disk Φ s') (fun _ s' => Hist s.disk Φ s')
      { s with trace := [] }) : Φ d := by
  obtain ⟨p, hp, rfl⟩ := h
  unfold traceOf at hp
  cases hr : x { s with trace := [] } with
  | ok a s' => rw [hr] at hp; exact (wp_ok hx hr).all p hp
  | error e s' => rw [hr] at hp; exact (wp_error hx hr).all p hp

/-- **Booting from a sound disk always succeeds and gives the target.** -/
theorem initlog_spec (hsound : Sound start size t d) (pid : ℕ) :
    wp (initlog ROOTDEV start size : IoM Unit)
      (fun _ s' => Rep s' (outside start size fun b => some (t b)) (leak (headBlocks (d start))) ∅ ∧
        s'.log = cleared (headed { (boot pid d).log with start, size, dev := ROOTDEV } (d start)) ∧
        Hist d (Sound start size t) s' ∧ headBlocks (s'.disk start) = [] ∧
        ∀ b, ¬ InLog start size b → s'.disk b = t b)
      (fun _ _ => False) (boot pid d) := by
  unfold initlog setArea
  simp only [wp_bind, monadLift_self, wp_modify]
  refine wp_mono (recoverFromLog_spec (rep_binit _ rfl) rfl rfl hsound
    (hist_nil hsound rfl) fun _ h => h) ?_ (fun _ _ h => h)
  rintro _ s' ⟨h1, h2, -, h4, h5, h6⟩
  exact ⟨h1, h2, h4, h5, h6⟩

lemma sound_restarts {d' : Disk} (hsound : Sound start size t d) (h : Restarts start size d d') :
    Sound start size t d' := by
  obtain ⟨pid, hstop⟩ := h
  exact hstop.of_hist (wp_mono (initlog_spec hsound pid) (fun _ _ h' => h'.2.2.1)
    (fun _ _ h' => h'.elim))

lemma sound_restarts_many {d' : Disk} (hsound : Sound start size t d)
    (h : Relation.ReflTransGen (Restarts start size) d d') : Sound start size t d' := by
  induction h with
  | refl => exact hsound
  | tail _ h ih => exact sound_restarts ih h

lemma initlog_idle (hs : 0 < size) (hn : headN (d start) = 0) (pid : ℕ) :
    wp (initlog ROOTDEV start size : IoM Unit)
      (fun _ s' => Idle start size d s' ∧ Hist d (Sound start size d) s') (fun _ _ => False)
      (boot pid d) := by
  have hnil := headBlocks_eq_nil hn
  refine wp_mono (initlog_spec (sound_of_nil hs hnil fun _ _ => rfl) pid) ?_ (fun _ _ h => h)
  rintro _ s' ⟨hrep, hlog, hist, hempty, hhome⟩
  rw [hnil, leak, unpinned_nil] at hrep
  refine ⟨?_, hist⟩
  constructor
  case rep => exact hrep
  case at_log => rw [hlog]; exact ⟨rfl, rfl, rfl⟩
  case n | outstanding | committing => rw [hlog]; rfl
  case empty => exact hempty
  case home => exact hhome

/-- A run of transactions: what holds when it returns, and of every disk on the way. -/
lemma transactions_spec {ts : List Txn} {d₀ : Disk} {Φ : Disk → Prop} (h : Idle start size t s)
    (hs : 0 < size) (hok : ∀ w ∈ ts, w.Ok start size) (hist : Hist d₀ Φ s)
    (hΦ : ∀ k ≤ ts.length, ∀ d, Sound start size (applyAll (ts.take k) t) d → Φ d) :
    wp (forM ts transaction : IoM Unit)
      (fun _ s' => Idle start size (applyAll ts t) s' ∧ Hist d₀ Φ s')
      (fun _ s' => Hist d₀ Φ s') s := by
  induction ts generalizing t s with
  | nil => simpa using ⟨h, hist⟩
  | cons w ts ih =>
    simp only [List.forM_cons, wp_bind]
    refine wp_mono (transaction_spec h (hok w (by simp)) hs hist fun d hd => ?_) ?_
      (fun _ _ h' => h'.1)
    · -- before the commit point none of the transactions has run, after it the first has
      rcases hd with hd | hd
      · exact hΦ 0 (Nat.zero_le _) d hd
      · exact hΦ 1 (by simp) d hd
    · rintro _ s1 ⟨h1, hist1⟩
      refine ih h1 (fun w' hw' => hok w' (by simp [hw'])) hist1 fun k hk d hd => ?_
      exact hΦ (k + 1) (by simpa using hk) d hd

lemma applyAll_append (ts ts' : List Txn) (d : Disk) :
    applyAll (ts ++ ts') d = applyAll ts' (applyAll ts d) := by
  simp [applyAll, List.foldl_append]

lemma sound_of_stopped {ts : List Txn} {d₀ : Disk} {r : ℕ} (hs : 0 < size)
    (hn : headN (d₀ start) = 0) (hok : ∀ w ∈ ts, w.Ok start size)
    (h : Stopped start size d₀ ts r d) :
    ∃ k, r ≤ k ∧ k ≤ ts.length ∧ Sound start size (applyAll (ts.take k) d₀) d := by
  have hsound : Sound start size d₀ d₀ := sound_of_nil hs (headBlocks_eq_nil hn) fun _ _ => rfl
  cases h with
  | booting h => exact ⟨0, le_rfl, Nat.zero_le _, sound_restarts hsound h⟩
  | @running pid _ s _ hr hrun hstop =>
    -- the first `r` transactions return
    have hidle : Idle start size (applyAll (ts.take r) d₀) s := by
      refine wp_ok (Q := fun _ s' => Idle start size (applyAll (ts.take r) d₀) s')
        (E := fun _ _ => True) ?_ hrun
      rw [wp_bind]
      refine wp_mono (initlog_idle hs hn pid) ?_ (fun _ _ h => h.elim)
      rintro _ s1 ⟨h1, hist1⟩
      have hist : Hist d₀ (fun _ => True) s1 := ⟨hist1.disk, fun _ _ => trivial⟩
      exact wp_mono (transactions_spec h1 hs (fun w hw => hok w (List.mem_of_mem_take hw)) hist
        fun _ _ _ _ => trivial) (fun _ _ h => h.1) (fun _ _ _ => trivial)
    -- and the others are stopped
    have hlast : Idle start size (applyAll (ts.take r) d₀) { s with trace := [] } :=
      { hidle with rep := { hidle.rep with } }
    obtain ⟨k, hk, hd⟩ := hstop.of_hist
      (Φ := fun d => ∃ k ≤ (ts.drop r).length,
        Sound start size (applyAll ((ts.drop r).take k) (applyAll (ts.take r) d₀)) d)
      (wp_mono (transactions_spec hlast hs (fun w hw => hok w (List.mem_of_mem_drop hw))
        (hist_nil ⟨0, Nat.zero_le _, sound_of_nil hs hidle.empty hidle.home⟩ rfl)
        fun k hk d hd => ⟨k, hk, hd⟩) (fun _ _ h => h.2) (fun _ _ h => h))
    refine ⟨r + k, by omega, by rw [List.length_drop] at hk; omega, ?_⟩
    rw [List.take_add, applyAll_append]
    exact hd

/-- **Crash atomicity.** Wherever the machine stops, and however often it stops again while
recovering, recovery runs to its end and leaves, outside the log, the effect of the first
`k` transactions in full, `k` counting every transaction that returned. -/
theorem crash_atomic (ts : List Txn) {d₀ : Disk} {r : ℕ} (hs : 0 < size)
    (hn : headN (d₀ start) = 0) (hok : ∀ w ∈ ts, w.Ok start size)
    (h : Stopped start size d₀ ts r d) :
    ∃ k, r ≤ k ∧ k ≤ ts.length ∧
      ∀ d', Relation.ReflTransGen (Restarts start size) d d' → ∀ pid,
        ∃ s, (initlog ROOTDEV start size : IoM Unit) (boot pid d') = .ok () s ∧
          ∀ b, ¬ InLog start size b → s.disk b = applyAll (ts.take k) d₀ b := by
  obtain ⟨k, hrk, hk, hsound⟩ := sound_of_stopped hs hn hok h
  refine ⟨k, hrk, hk, fun d' hd' pid => ?_⟩
  have hspec := initlog_spec (sound_restarts_many hsound hd') pid
  cases hrun : (initlog ROOTDEV start size : IoM Unit) (boot pid d') with
  | ok a s => exact ⟨s, rfl, (wp_ok hspec hrun).2.2.2.2⟩
  | error e s => exact (wp_error hspec hrun).elim

/-- A transaction on block 46, and one on blocks 46 and 47. -/
def twoTxns : List Txn := [[(46, fun _ => 7)], [(46, fun _ => 9), (47, fun _ => 9)]]

/-- The machine when the first one has returned. -/
def firstDone : Store :=
  endState (do initlog ROOTDEV 2 30; forM (twoTxns.take 1) transaction : IoM Unit)
    (boot 1 fun _ => zeroes)

/-- The disk when the commit of the second one has written the header and block 46. -/
def halfInstalled : Disk :=
  replay ((traceOf (forM (twoTxns.drop 1) transaction) firstDone).take 10) firstDone.disk

lemma halfInstalled_stopped : Stopped 2 30 (fun _ => zeroes) twoTxns 1 halfInstalled :=
  .running (by decide) (run_of_outcome (by decide +kernel)) ⟨_, List.take_prefix _ _, rfl⟩

/-- Power fails while the second transaction is being installed. -/
theorem crash_atomic_installing :
    headBlocks (halfInstalled 2) = [46, 47] ∧ byte (halfInstalled 46) 0 = 9 ∧ byte (halfInstalled 47) 0 = 0 ∧
    ∃ k, 1 ≤ k ∧ k ≤ 2 ∧
      ∀ d', Relation.ReflTransGen (Restarts 2 30) halfInstalled d' → ∀ pid,
        ∃ s, (initlog ROOTDEV 2 30 : IoM Unit) (boot pid d') = .ok () s ∧
          ∀ b, ¬ InLog 2 30 b → s.disk b = applyAll (twoTxns.take k) (fun _ => zeroes) b := by
  refine ⟨by decide +kernel, by decide +kernel, by decide +kernel,
    crash_atomic twoTxns (by decide) (by simp [headN, le_zeroes, toInt32]) (fun w hw => ?_)
      halfInstalled_stopped⟩
  rcases List.mem_pair.mp hw with rfl | rfl <;> constructor <;> simp [InLog, LOGSIZE, MAXOPBLOCKS]

end Xv6.Crash
