import Xv6.Redo
import Mathlib.Data.Finset.Basic

/-!
The order of events the log allows, read off the trace.

After the writes of the boot, which leave the header empty, operations begin, log blocks and
end; when the last one ends, its process commits, with exactly the writes of `commit`, and a
new group of operations can begin. `ctl` follows a trace and fails on the first event out of order.
-/

namespace Xv6.Protocol

open LogState Io Redo

/-- A block joins a list once. -/
def addNew (L : List ℕ) (b : ℕ) : List ℕ := if b ∈ L then L else L ++ [b]

inductive Ctl
  /-- The machine is booting. -/
  | boot
  /-- The processes of `S` are in operations; the group has logged `L`, and has passed
  `C` to `log_write`. -/
  | run (S : Finset ℕ) (L C : List ℕ)
  /-- Process `pid` commits the blocks `L`, and has made `k` writes. -/
  | commit (pid : ℕ) (L : List ℕ) (k : ℕ)

/-- Write number `k` of the commit of the blocks `L`: the log slots, the header, the home
blocks, and the header again. -/
def Planned (start : ℕ) (L : List ℕ) (k b : ℕ) (d : Block) : Prop :=
  if k < L.length then b = start + k + 1
  else if k = L.length then b = start ∧ headBlocks d = L
  else if k < 2 * L.length + 1 then L[k - L.length - 1]? = some b
  else k = 2 * L.length + 1 ∧ b = start ∧ headBlocks d = []

instance (start : ℕ) (L : List ℕ) (k b : ℕ) (d : Block) : Decidable (Planned start L k b d) := by
  unfold Planned
  infer_instance

/-- How many writes the commit of `L` makes. -/
def writes (L : List ℕ) : ℕ := if L = [] then 0 else 2 * L.length + 2

/-- Events of operations. -/
def opNext (S : Finset ℕ) (L C : List ℕ) : Event → Option Ctl
  | .began p => if p ∈ S then none else some (.run (insert p S) L C)
  | .checked p b => if p ∈ S then some (.run S L (addNew C b)) else none
  | .logged p b _ => if p ∈ S ∧ b ∈ C then some (.run S (addNew L b) C) else none
  | .ended p true => if S = {p} then some (.commit p L 0) else none
  | .ended p false => if p ∈ S ∧ S ≠ {p} then some (.run (S.erase p) L C) else none
  | _ => none

def next (start : ℕ) : Ctl → Event → Option Ctl
  | .boot, .write b d => if b = start ∧ headBlocks d ≠ [] then none else some .boot
  | .boot, e => opNext ∅ [] [] e
  | .run S L C, e => opNext S L C e
  | .commit p L k, .write b d =>
    if k < writes L ∧ Planned start L k b d then some (.commit p L (k + 1)) else none
  | .commit p L k, .committed q =>
    if q = p ∧ k = writes L then some (.run ∅ [] []) else none
  | .commit _ _ _, _ => none

/-- Where a trace leads; `none` if an event is out of order. -/
def ctl (start : ℕ) (tr : List Event) : Option Ctl := tr.foldlM (next start) .boot

lemma ctl_append (start : ℕ) (tr tr' : List Event) :
    ctl start (tr ++ tr') = (ctl start tr).bind fun c => tr'.foldlM (next start) c := by
  simp [ctl, List.foldlM_append]

variable {start : ℕ} {tr : List Event} {k k' : Ctl} {S : Finset ℕ} {L C : List ℕ} {e : Event}

lemma ctl_snoc {c : Ctl} (h : ctl start tr = some c) (e : Event) :
    ctl start (tr ++ [e]) = next start c e := by
  simp [ctl_append, h]

/-- The state of the operations, unless a commit runs. -/
def ops : Ctl → Option (Finset ℕ × List ℕ × List ℕ)
  | .boot => some (∅, [], [])
  | .run S L C => some (S, L, C)
  | .commit _ _ _ => none

lemma next_of_ops (h : ops k = some (S, L, C))
    (start : ℕ) (he : ∀ b d, e ≠ .write b d) : next start k e = opNext S L C e := by
  cases k with
  | boot =>
    simp only [ops, Option.some.injEq, Prod.mk.injEq] at h
    obtain ⟨rfl, rfl, rfl⟩ := h
    cases e with
    | write b d => exact absurd rfl (he b d)
    | _ => rfl
  | run S' L' C' =>
    simp only [ops, Option.some.injEq, Prod.mk.injEq] at h
    obtain ⟨rfl, rfl, rfl⟩ := h
    rfl
  | commit p L' k => simp [ops] at h

/-- The ways a trace can go on. -/
inductive Next (start : ℕ) : Ctl → Event → Ctl → Prop
  | boot {b : ℕ} {d : Block} (h : ¬ (b = start ∧ headBlocks d ≠ [])) :
      Next start .boot (.write b d) .boot
  | began {k : Ctl} {S : Finset ℕ} {L C : List ℕ} {p : ℕ} (hk : ops k = some (S, L, C))
      (hp : p ∉ S) : Next start k (.began p) (.run (insert p S) L C)
  | checked {k : Ctl} {S : Finset ℕ} {L C : List ℕ} {p b : ℕ} (hk : ops k = some (S, L, C))
      (hp : p ∈ S) : Next start k (.checked p b) (.run S L (addNew C b))
  | logged {k : Ctl} {S : Finset ℕ} {L C : List ℕ} {p b : ℕ} {d : Block}
      (hk : ops k = some (S, L, C)) (hp : p ∈ S) (hb : b ∈ C) :
      Next start k (.logged p b d) (.run S (addNew L b) C)
  | last {k : Ctl} {L C : List ℕ} {p : ℕ} (hk : ops k = some ({p}, L, C)) :
      Next start k (.ended p true) (.commit p L 0)
  | ended {k : Ctl} {S : Finset ℕ} {L C : List ℕ} {p : ℕ} (hk : ops k = some (S, L, C))
      (hp : p ∈ S) (hS : S ≠ {p}) : Next start k (.ended p false) (.run (S.erase p) L C)
  | write {p n b : ℕ} {L : List ℕ} {d : Block} (hn : n < writes L) (hb : Planned start L n b d) :
      Next start (.commit p L n) (.write b d) (.commit p L (n + 1))
  | committed {p : ℕ} {L : List ℕ} :
      Next start (.commit p L (writes L)) (.committed p) (.run ∅ [] [])

lemma Next.of_opNext
    (hk : ops k = some (S, L, C)) (h : opNext S L C e = some k') : Next start k e k' := by
  cases e with
  | write b d | committed p => cases h
  | began p =>
    rw [opNext] at h
    split at h <;> cases h
    exact .began hk ‹_›
  | checked p b =>
    rw [opNext] at h
    split at h <;> cases h
    exact .checked hk ‹_›
  | logged p b d =>
    rw [opNext] at h
    split at h <;> cases h
    rename_i h
    exact .logged hk h.1 h.2
  | ended p last =>
    cases last with
    | true =>
      rw [opNext] at h
      split at h <;> cases h
      rename_i hS
      exact .last (hS ▸ hk)
    | false =>
      rw [opNext] at h
      split at h <;> cases h
      rename_i h
      exact .ended hk h.1 h.2

lemma Next.of_next (h : next start k e = some k') : Next start k e k' := by
  by_cases hw : ∃ S L C, ops k = some (S, L, C) ∧ ∀ b d, e ≠ .write b d
  · obtain ⟨S, L, C, hk, he⟩ := hw
    rw [next_of_ops hk start he] at h
    exact .of_opNext hk h
  · cases k with
    | run S L C =>
      refine .of_opNext rfl h
    | boot =>
      cases e with
      | write b d =>
        rw [next] at h
        split at h <;> cases h
        exact .boot ‹_›
      | _ => exact absurd ⟨∅, [], [], rfl, by simp⟩ hw
    | commit p L n =>
      cases e with
      | write b d =>
        rw [next] at h
        split at h <;> cases h
        rename_i h
        exact .write h.1 h.2
      | committed q =>
        rw [next] at h
        split at h <;> cases h
        rename_i h
        obtain ⟨rfl, rfl⟩ := h
        exact .committed
      | _ => cases h

/-- **Induction over the traces in order.** -/
lemma ctl_induction {P : List Event → Ctl → Prop} (nil : P [] .boot)
    (snoc : ∀ tr e k k', ctl start tr = some k → P tr k → Next start k e k' → P (tr ++ [e]) k')
    (h : ctl start tr = some k) : P tr k := by
  induction tr using List.reverseRecOn generalizing k with
  | nil => cases h; exact nil
  | append_singleton tr e ih =>
    rw [ctl_append] at h
    obtain ⟨k', hk', hnext⟩ := Option.bind_eq_some_iff.mp h
    refine snoc tr e k' k hk' (ih hk') (.of_next ?_)
    simpa using hnext

/-- Process `p` is between `begin_op` and `end_op`. -/
def inOp (p : ℕ) (tr : List Event) : Bool :=
  tr.foldl (fun o e => match e with
    | .began q => if q = p then true else o
    | .ended q _ => if q = p then false else o
    | _ => o) false

/-- Process `p` has ended the last operation of its group, and is in `commit`. -/
def commits (p : ℕ) (tr : List Event) : Bool :=
  tr.foldl (fun o e => match e with
    | .ended q true => if q = p then true else o
    | .committed q => if q = p then false else o
    | _ => o) false

lemma inOp_snoc (p : ℕ) (tr : List Event) (e : Event) :
    inOp p (tr ++ [e]) = match e with
      | .began q => if q = p then true else inOp p tr
      | .ended q _ => if q = p then false else inOp p tr
      | _ => inOp p tr := by
  cases e <;> simp [inOp]

lemma commits_snoc (p : ℕ) (tr : List Event) (e : Event) :
    commits p (tr ++ [e]) = match e with
      | .ended q true => if q = p then true else commits p tr
      | .committed q => if q = p then false else commits p tr
      | _ => commits p tr := by
  rw [commits, List.foldl_append]
  rfl

/-- The processes in operations. -/
def procs : Ctl → Finset ℕ
  | .run S _ _ => S
  | _ => ∅

/-- The blocks logged since the last commit. -/
def Ctl.blocks : Ctl → List ℕ
  | .boot => []
  | .run _ L _ => L
  | .commit _ L _ => L

lemma procs_of_ops (h : ops k = some (S, L, C)) : procs k = S := by
  cases k with
  | boot | run S' L' C' =>
    simp only [ops, Option.some.injEq, Prod.mk.injEq] at h
    exact h.1
  | commit p L' k => simp [ops] at h

/-- **The trace says who is in an operation.** -/
lemma inOp_iff (h : ctl start tr = some k) (p : ℕ) : inOp p tr = true ↔ p ∈ procs k := by
  refine ctl_induction (P := fun tr k => inOp p tr = true ↔ p ∈ procs k) ?_ ?_ h
  · simp [inOp, procs]
  · intro tr e k k' _ ih hn
    rw [inOp_snoc]
    cases hn with
    | boot h | write hn hb | committed => exact ih
    | checked hk hp | logged hk hp hb => rwa [procs_of_ops hk] at ih
    | @began k S L C q hk hp | @last k L C q hk | @ended k S L C q hk hp hS =>
      rw [procs_of_ops hk] at ih
      by_cases hq : q = p
      · simp [hq, procs]
      · simp [hq, procs, ih, Ne.symm hq]

/-- **The trace says who commits.** -/
lemma commits_iff (h : ctl start tr = some k) (p : ℕ) :
    commits p tr = true ↔ ∃ L n, k = .commit p L n := by
  refine ctl_induction (P := fun tr k => commits p tr = true ↔ ∃ L n, k = .commit p L n) ?_ ?_ h
  · simp [commits]
  · intro tr e k k' _ ih hn
    have hrun : ∀ {k S L C}, ops k = some (S, L, C) → ¬ ∃ L n, k = .commit p L n := by
      rintro k S L C hk ⟨L', n, rfl⟩
      cases hk
    rw [commits_snoc]
    cases hn with
    | boot h => exact ih
    | write hn hb => rw [ih]; simp
    | @committed q L =>
      by_cases hq : q = p
      · simp [hq]
      · simp [hq, ih]
    | checked hk hp | logged hk hp hb | began hk hp | ended hk hp hS => rw [ih]; simpa using hrun hk
    | @last k L C q hk =>
      by_cases hq : q = p
      · simp [hq]
      · simp only [hq, if_false, ih, hrun hk, false_iff]
        simpa using hq

/-- The contents of each block: those of its last `log_write`, or else those of `d₀`. -/
def latest (d₀ : Disk) (tr : List Event) : Disk :=
  tr.foldl (fun d e => match e with
    | .logged _ b x => Function.update d b x
    | _ => d) d₀

lemma latest_snoc (d₀ : Disk) (tr : List Event) (e : Event) :
    latest d₀ (tr ++ [e]) = match e with
      | .logged _ b x => Function.update (latest d₀ tr) b x
      | _ => latest d₀ tr := by
  cases e <;> simp [latest]

lemma latest_of_ne (d₀ : Disk) (tr : List Event) (he : ∀ p b x, e ≠ .logged p b x) :
    latest d₀ (tr ++ [e]) = latest d₀ tr := by
  rw [latest_snoc]
  cases e with
  | logged p b x => exact absurd rfl (he p b x)
  | _ => rfl

/-- Every event of the trace happened where `P` allows it. -/
def Always (P : List Event → Event → Prop) (tr : List Event) : Prop :=
  ∀ t e, t ++ [e] <+: tr → P t e

lemma always_nil (P : List Event → Event → Prop) : Always P [] := by
  intro t e h
  simp at h

lemma always_snoc {P : List Event → Event → Prop} :
    Always P (tr ++ [e]) ↔ Always P tr ∧ P tr e := by
  refine ⟨fun h => ⟨fun t e' ht => h t e' (ht.trans (List.prefix_append ..)), h tr e List.prefix_rfl⟩,
    fun ⟨h, he⟩ t e' ht => ?_⟩
  rcases List.prefix_concat_iff.mp ht with heq | ht
  · obtain ⟨rfl, he'⟩ := List.append_inj' heq rfl
    rw [List.singleton_inj.mp he']
    exact he
  · exact h t e' ht

lemma always_iff {P : List Event → Event → Prop} :
    (∀ i, (h : i < tr.length) → P (tr.take i) tr[i]) ↔ Always P tr := by
  constructor
  · rintro h t e ⟨u, rfl⟩
    simpa using h t.length (by simp)
  · intro h i hi
    refine h _ _ ?_
    rw [List.take_append_getElem]
    exact List.take_prefix ..

instance (P : List Event → Event → Prop) [∀ t e, Decidable (P t e)] : Decidable (Always P tr) :=
  decidable_of_iff _ always_iff

/-- A write to a slot of the log stays in the log, and is what was last logged for the block that
the slot is for. -/
def SlotOk (start size : ℕ) (d₀ : Disk) (tr : List Event) : Event → Prop
  | .write b d => ∀ p L j x, ctl start tr = some (.commit p L j) → L[j]? = some x →
      InLog start size b ∧ d = latest d₀ tr x
  | _ => True

/-- `begin_op` lets an operation begin when there is room for `MAXOPBLOCKS` blocks of it and of each
one under way. -/
def Admits (start : ℕ) (tr : List Event) : Event → Prop
  | .began _ => ∀ k S L C, ctl start tr = some k → ops k = some (S, L, C) →
      L.length + (S.card + 1) * MAXOPBLOCKS ≤ LOGSIZE
  | _ => True

lemma mem_addNew {a b : ℕ} : a ∈ addNew L b ↔ a ∈ L ∨ a = b := by
  unfold addNew
  split
  · exact ⟨.inl, fun h => h.elim id fun e => e ▸ ‹_›⟩
  · simp

end Xv6.Protocol
