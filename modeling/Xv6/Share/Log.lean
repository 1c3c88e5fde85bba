import Xv6.Share.Held
import Xv6.Share.Get
import Xv6.Machine
import Xv6.Redo

/-!
The log shared by any number of processes, and the invariant of the machine.

Either no process commits, and the log is described by the trace and by who is in an
operation; or one process commits (or boots the machine), and then the log, the trace, the
contents of the blocks and the pins are all its own: nobody else can change them.
-/

namespace Xv6.Share

open Lib.Conc Bio LogState Io Protocol Machine Redo Function

/-- What the process that commits or boots knows. -/
structure Com where
  log : Log
  V : Disk
  pins : List ℕ
  trace : List Event
  boot : Bool

/-- A process and the log: whether the machine is up for it, whether it is in an operation,
the block whose `log_write` has passed its tests, and what it knows as the committer. -/
structure Role where
  up : Bool
  op : Bool
  chk : Option ℕ
  com : Option Com

structure Local where
  hands : Hands
  role : Role

variable {N : ℕ}

/-- Processes log only blocks outside the log, and the log is as large as the cache. -/
def Good (c : Conf) : Prop := (∀ b, c.W b → ¬ InLog c.start c.size b) ∧ NBUF ≤ c.size

/-- The processes in operations and the blocks passed to `log_write`, as the roles have
them. -/
structure OpsOk (l : Log) (r : Fin N → Role) (S : Finset ℕ) (C : List ℕ) : Prop where
  outstanding : l.outstanding = S.card
  mem : ∀ p : Fin N, p.val ∈ S ↔ (r p).op = true
  lt : ∀ q ∈ S, q < N
  chk : ∀ p b, (r p).chk = some b → (r p).op = true ∧ b ∈ C
  sub : ∀ b ∈ l.lh.blocks, b ∈ C

/-- The log while nobody commits. -/
structure Quiet (c : Conf) (l : Log) (tr : List Event) (r : Fin N → Role) (pins : List ℕ) :
    Prop where
  com : ∀ p, (r p).com = none
  at_start : l.start = c.start
  at_size : l.size = c.size
  dev : l.dev = ROOTDEV
  committing : l.committing = false
  nonneg : 0 ≤ l.lh.n
  le : l.lh.n ≤ LOGSIZE
  allowed : ∀ b ∈ l.lh.blocks, c.W b ∧ b < 2 ^ 32
  is_pins : pins = l.lh.blocks
  at_ops : ∃ k S C, ctl c.start tr = some k ∧ ops k = some (S, l.lh.blocks, C) ∧ OpsOk l r S C

/-- The trace is that of a boot, or of a commit by `p`. -/
def Com.CtlOk (m : Com) (c : Conf) (p : ℕ) (tr : List Event) : Prop :=
  if m.boot then ctl c.start tr = some .boot else ∃ L k, ctl c.start tr = some (.commit p L k)

/-- The log while process `p` commits or boots, knowing `m`. -/
structure Owned (c : Conf) (l : Log) (tr : List Event) (r : Fin N → Role) (V : Disk)
    (pins : List ℕ) (p : Fin N) (m : Com) : Prop where
  com : (r p).com = some m
  others : ∀ q, q ≠ p → (r q).com = none
  noop : ∀ q, (r q).op = false
  nochk : ∀ q, (r q).chk = none
  is_log : m.log = l
  is_V : m.V = V
  is_pins : m.pins = pins
  is_trace : m.trace = tr
  outstanding : l.outstanding = 0
  committing : l.committing = !m.boot
  down : m.boot = true → ∀ q, (r q).up = false
  at_ctl : m.CtlOk c p tr
  drop : ∃ j, (m.boot = true → j = 0) ∧ pins = l.lh.blocks.drop j

/-- What the trace says about the blocks: only blocks that may be are logged, reading a
block outside the log gives its last logged contents, these are what goes to the log, and
operations begin only when there is room for them. -/
structure Told (c : Conf) (tr : List Event) (V : Disk) : Prop where
  allowed : ∀ p b d, .logged p b d ∈ tr → c.W b
  latest : Good c → ∀ b, ¬ InLog c.start c.size b → V b = latest c.disk tr b
  slots : Good c → Always (SlotOk c.start c.size c.disk) tr
  admits : Always (Admits c.start) tr

lemma Told.snoc {c : Conf} {tr : List Event} {V V' : Disk} (h : Told c tr V) {e : Event}
    (he : ∀ p b x, e ≠ .logged p b x)
    (hV : Good c → ∀ b, ¬ InLog c.start c.size b → V' b = V b)
    (hslot : Good c → SlotOk c.start c.size c.disk tr e) (hadm : Admits c.start tr e) :
    Told c (tr ++ [e]) V' where
  allowed := fun p b d hm => by
    rcases List.mem_append.mp hm with hm | hm
    · exact h.allowed p b d hm
    · exact absurd (List.mem_singleton.mp hm).symm (he p b d)
  latest := fun hg b hb => by
    rw [latest_of_ne _ _ he, hV hg b hb]
    exact h.latest hg b hb
  slots := fun hg => always_snoc.mpr ⟨h.slots hg, hslot hg⟩
  admits := always_snoc.mpr ⟨h.admits, hadm⟩

structure LogInv (c : Conf) (l : Log) (tr : List Event) (r : Fin N → Role) (V : Disk)
    (pins : List ℕ) : Prop where
  mode : Quiet c l tr r pins ∨ ∃ p m, Owned c l tr r V pins p m
  told : Told c tr V

/-- The invariant of the machine. -/
def Inv (c : Conf) (s : Store) (ℓ : Fin N → Local) : Prop :=
  ∃ V pins, Cache s.bcache s.disk (Local.hands ∘ ℓ) V pins ∧
    LogInv c s.log s.trace (Local.role ∘ ℓ) V pins

/-- How an action may fail to go on: the process has to wait, the header array overflows,
the cache is full, or the log is. -/
inductive Stuck (c : Conf) : Stop → Store → Prop
  | hang (s : Store) : Stuck c .hang s
  | undefined (s : Store) : Stuck c .undefined s
  | noBuf (s : Store) : Stuck c (.panic "bget: no buffers") s
  | tooBig (s : Store) {k : Ctl} {S : Finset ℕ} {C : List ℕ} (hctl : ctl c.start s.trace = some k)
      (hk : ops k = some (S, s.log.lh.blocks, C)) (hsize : s.log.size = c.size)
      (h : LOGSIZE ≤ s.log.lh.n ∨ s.log.size - 1 ≤ s.log.lh.n) :
      Stuck c (.panic "too big a transaction") s

variable {c : Conf} {s s' : Store} {ℓ : Fin N → Local} {p : Fin N} {l : Log} {tr : List Event}
  {r : Fin N → Role} {V : Disk} {pins : List ℕ} {m : Com}

lemma LogInv.owned (h : LogInv c l tr r V pins) (hm : (r p).com = some m) :
    Owned c l tr r V pins p m := by
  rcases h.mode with hq | ⟨q, m', ho⟩
  · rw [hq.com p] at hm; cases hm
  · have hqp : p = q := by
      by_contra hne
      rw [ho.others p hne] at hm
      cases hm
    subst hqp
    rw [ho.com, Option.some.injEq] at hm
    rwa [← hm]

lemma LogInv.quiet (h : LogInv c l tr r V pins) (hop : (r p).op = true) :
    Quiet c l tr r pins := by
  rcases h.mode with hq | ⟨q, m, ho⟩
  · exact hq
  · rw [ho.noop p] at hop; cases hop

/-- **The three modes of the log**: nobody commits, the machine boots, or a process commits. -/
lemma LogInv.cases (h : LogInv c l tr r V pins) :
    (Quiet c l tr r pins ∧ ∃ k S C, ctl c.start tr = some k ∧ ops k = some (S, l.lh.blocks, C) ∧
      OpsOk l r S C) ∨
    (∃ p m, Owned c l tr r V pins p m ∧ m.boot = true ∧ ctl c.start tr = some .boot) ∨
    ∃ p m L n, Owned c l tr r V pins p m ∧ m.boot = false ∧
      ctl c.start tr = some (.commit p L n) := by
  rcases h.mode with hq | ⟨p, m, ho⟩
  · exact .inl ⟨hq, hq.at_ops⟩
  · have hctl := ho.at_ctl
    unfold Com.CtlOk at hctl
    split at hctl
    · exact .inr (.inl ⟨p, m, ho, ‹_›, hctl⟩)
    · obtain ⟨L, n, hctl⟩ := hctl
      exact .inr (.inr ⟨p, m, L, n, ho, by simpa using ‹¬ m.boot = true›, hctl⟩)

lemma inv_hands {k : Hands} (hC : Cache s'.bcache s'.disk
    (update (Local.hands ∘ ℓ) p k) V pins)
    (hL : LogInv c s.log s.trace (Local.role ∘ ℓ) V pins) (hlog : s'.log = s.log)
    (htr : s'.trace = s.trace) : Inv c s' (update ℓ p ⟨k, (ℓ p).role⟩) := by
  refine ⟨V, pins, ?_, ?_⟩
  · rw [comp_update]; exact hC
  · rw [comp_update, hlog, htr]
    have : update (Local.role ∘ ℓ) p (ℓ p).role = Local.role ∘ ℓ :=
      update_eq_self p (Local.role ∘ ℓ)
    rw [this]; exact hL

lemma inv_same (h : Inv c s ℓ) (hb : s'.bcache = s.bcache) (hd : s'.disk = s.disk)
    (hlog : s'.log = s.log) (htr : s'.trace = s.trace) :
    Inv c s' (update ℓ p (ℓ p)) := by
  rw [update_eq_self]
  obtain ⟨V, pins, hC, hL⟩ := h
  exact ⟨V, pins, by rw [hb, hd]; exact hC, by rw [hlog, htr]; exact hL⟩

lemma inv_both {k : Hands} {r' : Role} (hC : Cache s'.bcache s'.disk
    (update (Local.hands ∘ ℓ) p k) V pins)
    (hL : LogInv c s'.log s'.trace (update (Local.role ∘ ℓ) p r') V pins) :
    Inv c s' (update ℓ p ⟨k, r'⟩) :=
  ⟨V, pins, by rw [comp_update]; exact hC, by rw [comp_update]; exact hL⟩

lemma inv_role {r' : Role} (hC : Cache s'.bcache s'.disk (Local.hands ∘ ℓ) V pins)
    (hL : LogInv c s'.log s'.trace (update (Local.role ∘ ℓ) p r') V pins) :
    Inv c s' (update ℓ p ⟨(ℓ p).hands, r'⟩) := by
  refine inv_both ?_ hL
  have : update (Local.hands ∘ ℓ) p (ℓ p).hands = Local.hands ∘ ℓ :=
    update_eq_self p (Local.hands ∘ ℓ)
  rw [this]; exact hC

lemma Owned.change (h : Owned c l tr r V pins p m) (l' : Log) (tr' : List Event) (V' : Disk)
    (pins' : List ℕ) (hout : l'.outstanding = 0) (hcom : l'.committing = !m.boot)
    (hctl : m.CtlOk c p tr') (hdrop : ∃ j, (m.boot = true → j = 0) ∧ pins' = l'.lh.blocks.drop j) :
    Owned c l' tr' (update r p { r p with com := some ⟨l', V', pins', tr', m.boot⟩ })
      V' pins' p ⟨l', V', pins', tr', m.boot⟩ := by
  have hfield : ∀ q, (update r p { r p with com := some ⟨l', V', pins', tr', m.boot⟩ } q).up =
      (r q).up ∧ (update r p { r p with com := some ⟨l', V', pins', tr', m.boot⟩ } q).op =
      (r q).op ∧ (update r p { r p with com := some ⟨l', V', pins', tr', m.boot⟩ } q).chk =
      (r q).chk := by
    intro q
    by_cases hq : q = p
    · subst hq; simp
    · simp [hq]
  constructor
  case com => simp
  case others => intro q hq; rw [update_of_ne hq]; exact h.others q hq
  case noop => intro q; rw [(hfield q).2.1]; exact h.noop q
  case nochk => intro q; rw [(hfield q).2.2]; exact h.nochk q
  case is_log => rfl
  case is_V => rfl
  case is_pins => rfl
  case is_trace => rfl
  case outstanding => exact hout
  case committing => exact hcom
  case down => intro hb q; rw [(hfield q).1]; exact h.down hb q
  case at_ctl => exact hctl
  case drop => exact hdrop

end Xv6.Share
