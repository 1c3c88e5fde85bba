import Xv6.Protocol

/-!
Group commit, read off the trace.

The events between two ends of `commit` make one transaction. In a trace that is in order,
an operation lies in one transaction, and the header that commits the transaction lists
exactly the blocks its operations have logged, whose contents are then in the log.
-/

namespace Xv6.Grouping

open LogState Io Protocol Redo List

def isCommitted : Event → Bool
  | .committed _ => true
  | _ => false

/-- The number of the transaction that event `i` belongs to. -/
def txn (tr : List Event) (i : ℕ) : ℕ := (tr.take i).countP isCommitted

/-- Process `p` begins an operation with event `i` and ends it with event `j`. -/
def IsOp (tr : List Event) (p i j : ℕ) : Prop :=
  i < j ∧ tr[i]? = some (.began p) ∧ (∃ last, tr[j]? = some (.ended p last)) ∧
    ∀ m last, i < m → m < j → tr[m]? ≠ some (.ended p last)

/-- Block `b` is logged in transaction `t`. -/
def LoggedIn (tr : List Event) (t b : ℕ) : Prop :=
  ∃ i p d, tr[i]? = some (.logged p b d) ∧ txn tr i = t

/-- Event `w` writes a header that lists blocks: from then on the transaction is durable. -/
def Point (start : ℕ) (tr : List Event) (w : ℕ) (d : Block) : Prop :=
  tr[w]? = some (.write start d) ∧ headBlocks d ≠ []

structure Grouped (start : ℕ) (d₀ : Disk) (tr : List Event) : Prop where
  /-- All events of an operation are in one transaction. -/
  op : ∀ p i j, IsOp tr p i j → ∀ m, i ≤ m → m ≤ j → txn tr m = txn tr i
  /-- Blocks are logged in operations. -/
  logged : ∀ m p b d, tr[m]? = some (.logged p b d) → inOp p (tr.take m) = true
  /-- A committed header lists exactly the blocks logged in its transaction. -/
  header : ∀ w d, Point start tr w d → ∀ b, b ∈ headBlocks d ↔ LoggedIn tr (txn tr w) b
  /-- Every operation that has begun before has ended. -/
  closed : ∀ w d, Point start tr w d → ∀ i p, i < w → tr[i]? = some (.began p) →
    ∃ j last, i < j ∧ j < w ∧ tr[j]? = some (.ended p last)
  /-- A transaction is committed once. -/
  once : ∀ w d w' d', Point start tr w d → Point start tr w' d' → txn tr w = txn tr w' → w = w'
  /-- A transaction that is over and has logged blocks is committed. -/
  durable : ∀ t b, t < txn tr tr.length → LoggedIn tr t b → ∃ w d, Point start tr w d ∧ txn tr w = t
  /-- When its header is written, the log has what was last logged for each of its blocks. -/
  slots : ∀ w d, Point start tr w d → ∀ j b, (headBlocks d)[j]? = some b →
    replay (tr.take w) d₀ (start + j + 1) = latest d₀ (tr.take w) b

/-- The transaction of an operation that has ended is over, unless an operation is still under
way or a process commits. -/
def Settled (tr : List Event) : Prop :=
  ∀ p i j, IsOp tr p i j →
    txn tr i < txn tr tr.length ∨ ∃ q, inOp q tr = true ∨ commits q tr = true

variable {start : ℕ} {d₀ : Disk} {tr : List Event} {e : Event}

/-! ### One more event -/

variable {i : ℕ} {k k' : Ctl} {S : Finset ℕ} {L C : List ℕ}

lemma get_snoc {x : Event} : (tr ++ [e])[i]? = some x ↔ tr[i]? = some x ∨ (i = tr.length ∧ e = x) := by
  rw [List.getElem?_append]
  split
  · exact ⟨.inl, fun h => h.resolve_right fun h' => by omega⟩
  · by_cases hi : i = tr.length
    · simp [hi]
    · have h1 : tr[i]? = none := List.getElem?_eq_none (by omega)
      have h2 : [e][i - tr.length]? = none := List.getElem?_eq_none (by simp; omega)
      simp [h1, h2, hi]

lemma lt_of_get {x : Event} (h : tr[i]? = some x) : i < tr.length :=
  (List.getElem?_eq_some_iff.mp h).1

lemma txn_snoc (hi : i ≤ tr.length) : txn (tr ++ [e]) i = txn tr i := by
  rw [txn, take_append_of_le_length hi, txn]

lemma txn_mono {j : ℕ} (h : i ≤ j) : txn tr i ≤ txn tr j :=
  (take_sublist_take_left h).countP_le

lemma txn_le (i : ℕ) : txn tr i ≤ txn tr tr.length := by
  unfold txn
  rw [take_length]
  exact (take_sublist i tr).countP_le

lemma txn_length_snoc :
    txn (tr ++ [e]) (tr ++ [e]).length = txn tr tr.length + if isCommitted e then 1 else 0 := by
  simp only [txn, take_length, countP_append, countP_singleton]

lemma point_snoc {w : ℕ} {d : Block} : Point start (tr ++ [e]) w d ↔
    Point start tr w d ∨ (w = tr.length ∧ e = .write start d ∧ headBlocks d ≠ []) := by
  unfold Point
  rw [get_snoc]
  tauto

lemma loggedIn_snoc {t b : ℕ} : LoggedIn (tr ++ [e]) t b ↔
    LoggedIn tr t b ∨ (t = txn tr tr.length ∧ ∃ p d, e = .logged p b d) := by
  constructor
  · rintro ⟨i, p, d, hi, ht⟩
    rcases get_snoc.mp hi with hi | ⟨rfl, rfl⟩
    · rw [txn_snoc (lt_of_get hi).le] at ht
      exact .inl ⟨i, p, d, hi, ht⟩
    · rw [txn_snoc le_rfl] at ht
      exact .inr ⟨ht.symm, p, d, rfl⟩
  · rintro (⟨i, p, d, hi, ht⟩ | ⟨rfl, p, d, rfl⟩)
    · exact ⟨i, p, d, get_snoc.mpr (.inl hi), by rw [txn_snoc (lt_of_get hi).le]; exact ht⟩
    · exact ⟨tr.length, p, d, get_snoc.mpr (.inr ⟨rfl, rfl⟩), txn_snoc le_rfl⟩

/-! ### Traces in order are grouped -/

/-- The transaction under way has been committed. -/
def Done (start : ℕ) (tr : List Event) : Prop :=
  ∃ w d, Point start tr w d ∧ txn tr w = txn tr tr.length

/-- An operation is under way, or a commit. -/
def Busy (k : Ctl) : Prop := (∃ p, p ∈ procs k) ∨ ∃ p L n, k = .commit p L n

/-- What has happened in the transaction that is under way. -/
structure Current (start : ℕ) (d₀ : Disk) (tr : List Event) (k : Ctl) : Prop where
  /-- Operations under way have begun in it. -/
  open_ : ∀ i p, tr[i]? = some (.began p) → (∃ j last, i < j ∧ tr[j]? = some (.ended p last)) ∨
    (p ∈ procs k ∧ txn tr i = txn tr tr.length)
  blocks : ∀ b, b ∈ k.blocks ↔ LoggedIn tr (txn tr tr.length) b
  point : Done start tr ↔ ∃ p L n, k = .commit p L n ∧ L ≠ [] ∧ L.length < n
  busy : ∀ i p, tr[i]? = some (.began p) → txn tr i = txn tr tr.length → Busy k
  /-- The commit has filled the first slots. -/
  slots : ∀ p L n, k = .commit p L n → n ≤ L.length → ∀ j b, j < n → L[j]? = some b →
    replay tr d₀ (start + j + 1) = latest d₀ tr b

/-- What an event must satisfy for the groups to stay in order. -/
structure Fits (start : ℕ) (d₀ : Disk) (tr : List Event) (e : Event) : Prop where
  ended : ∀ i p last, e = .ended p last → tr[i]? = some (.began p) →
    (∃ j last, i < j ∧ tr[j]? = some (.ended p last)) ∨ txn tr i = txn tr tr.length
  logged : ∀ p b d, e = .logged p b d → inOp p tr = true ∧ ¬ Done start tr
  point : ∀ d, e = .write start d → headBlocks d ≠ [] → ¬ Done start tr ∧
    (∀ b, b ∈ headBlocks d ↔ LoggedIn tr (txn tr tr.length) b) ∧
    (∀ (i p : ℕ), tr[i]? = some (.began p) → ∃ j last, i < j ∧ tr[j]? = some (.ended p last)) ∧
    ∀ (j b : ℕ), (headBlocks d)[j]? = some b → replay tr d₀ (start + j + 1) = latest d₀ tr b
  committed : ∀ p, e = .committed p → ∀ b, LoggedIn tr (txn tr tr.length) b → Done start tr

lemma Grouped.snoc (h : Grouped start d₀ tr) (hf : Fits start d₀ tr e) :
    Grouped start d₀ (tr ++ [e]) where
  op := by
    rintro p i j ⟨hij, hi, ⟨last, hj⟩, hmin⟩ m him hmj
    have hi' := (get_snoc.mp hi).resolve_right fun h' => by
      have := (List.getElem?_eq_some_iff.mp hj).1
      simp at this
      omega
    have hlt := lt_of_get hi'
    have hno : ∀ m last, i < m → m < j → tr[m]? ≠ some (.ended p last) := fun m last h1 h2 h3 =>
      hmin m last h1 h2 (get_snoc.mpr (.inl h3))
    rcases get_snoc.mp hj with hj' | ⟨rfl, rfl⟩
    · have := lt_of_get hj'
      rw [txn_snoc (by omega), txn_snoc (by omega)]
      exact h.op p i j ⟨hij, hi', ⟨last, hj'⟩, hno⟩ m him hmj
    · -- the operation ends now
      rw [txn_snoc (by omega), txn_snoc (by omega)]
      rcases hf.ended i p last rfl hi' with ⟨j, last', h1, h2⟩ | heq
      · exact absurd h2 (hno j last' h1 (lt_of_get h2))
      · have h1 : txn tr i ≤ txn tr m := txn_mono him
        have h2 : txn tr m ≤ txn tr tr.length := txn_mono hmj
        omega
  logged := by
    intro m p b d hm
    rcases get_snoc.mp hm with hm | ⟨rfl, rfl⟩
    · rw [take_append_of_le_length (lt_of_get hm).le]
      exact h.logged m p b d hm
    · rw [take_append_of_le_length le_rfl, take_length]
      exact (hf.logged p b d rfl).1
  header := by
    intro w d hw b
    rw [loggedIn_snoc]
    rcases point_snoc.mp hw with hw' | ⟨rfl, rfl, hne⟩
    · rw [txn_snoc (lt_of_get hw'.1).le, h.header w d hw' b]
      refine ⟨.inl, fun h' => h'.resolve_right ?_⟩
      rintro ⟨ht, p, x, rfl⟩
      exact (hf.logged p b x rfl).2 ⟨w, d, hw', ht⟩
    · rw [txn_snoc le_rfl, (hf.point d rfl hne).2.1 b]
      simp
  closed := by
    intro w d hw i p hiw hi
    have hw' : w ≤ tr.length := by
      have := lt_of_get hw.1
      simp at this
      omega
    have hi' := (get_snoc.mp hi).resolve_right fun h' => by omega
    have hstep : ∃ j last, i < j ∧ j < w ∧ tr[j]? = some (.ended p last) := by
      rcases point_snoc.mp hw with hw | ⟨rfl, rfl, hne⟩
      · exact h.closed w d hw i p hiw hi'
      · obtain ⟨j, last, hij, hj⟩ := (hf.point d rfl hne).2.2.1 i p hi'
        exact ⟨j, last, hij, lt_of_get hj, hj⟩
    obtain ⟨j, last, h1, h2, h3⟩ := hstep
    exact ⟨j, last, h1, h2, get_snoc.mpr (.inl h3)⟩
  once := by
    intro w d w' d' hw hw' ht
    rcases point_snoc.mp hw with hw | ⟨rfl, rfl, hne⟩ <;>
      rcases point_snoc.mp hw' with hw' | ⟨rfl, he, hne'⟩
    · rw [txn_snoc (lt_of_get hw.1).le, txn_snoc (lt_of_get hw'.1).le] at ht
      exact h.once w d w' d' hw hw' ht
    · rw [txn_snoc (lt_of_get hw.1).le, txn_snoc le_rfl] at ht
      exact absurd ⟨w, d, hw, ht⟩ (hf.point d' he hne').1
    · rw [txn_snoc (lt_of_get hw'.1).le, txn_snoc le_rfl] at ht
      exact absurd ⟨w', d', hw', ht.symm⟩ (hf.point d rfl hne).1
    · rfl
  durable := by
    intro t b ht hb
    have hlift : (∃ w d, Point start tr w d ∧ txn tr w = t) →
        ∃ w d, Point start (tr ++ [e]) w d ∧ txn (tr ++ [e]) w = t := by
      rintro ⟨w, d, hw, hwt⟩
      exact ⟨w, d, point_snoc.mpr (.inl hw), by rw [txn_snoc (lt_of_get hw.1).le]; exact hwt⟩
    apply hlift
    rw [txn_length_snoc] at ht
    rcases loggedIn_snoc.mp hb with hb' | ⟨rfl, p, d, rfl⟩
    · by_cases hlt : t < txn tr tr.length
      · exact h.durable t b hlt hb'
      · cases e with
        | committed p =>
          have : t = txn tr tr.length := by
            simp only [isCommitted, if_true] at ht
            omega
          subst this
          exact hf.committed p rfl b hb'
        | _ =>
          simp only [isCommitted, Bool.false_eq_true, if_false] at ht
          omega
    · simp only [isCommitted, Bool.false_eq_true, if_false] at ht
      omega
  slots := by
    intro w d hw j b hj
    rcases point_snoc.mp hw with hw | ⟨rfl, rfl, hne⟩
    · rw [take_append_of_le_length (lt_of_get hw.1).le]
      exact h.slots w d hw j b hj
    · rw [take_append_of_le_length le_rfl, take_length]
      exact (hf.point d rfl hne).2.2.2 j b hj

lemma done_snoc (he : isCommitted e = false) (hp : ∀ d, e = .write start d → headBlocks d = []) :
    Done start (tr ++ [e]) ↔ Done start tr := by
  have hlen : txn (tr ++ [e]) (tr ++ [e]).length = txn tr tr.length := by
    rw [txn_length_snoc, he]; rfl
  unfold Done
  rw [hlen]
  constructor
  · rintro ⟨w, d, hw, ht⟩
    rcases point_snoc.mp hw with hw' | ⟨-, rfl, hne⟩
    · exact ⟨w, d, hw', by rwa [txn_snoc (lt_of_get hw'.1).le] at ht⟩
    · exact absurd (hp d rfl) hne
  · rintro ⟨w, d, hw, ht⟩
    exact ⟨w, d, point_snoc.mpr (.inl hw), by rwa [txn_snoc (lt_of_get hw.1).le]⟩

lemma Current.snoc (h : Current start d₀ tr k) (he : isCommitted e = false)
    (hopen : ∀ p ∈ procs k, p ∈ procs k' ∨ ∃ last, e = .ended p last)
    (hbegan : ∀ p, e = .began p → p ∈ procs k')
    (hblocks : ∀ b, b ∈ k'.blocks ↔ b ∈ k.blocks ∨ ∃ p d, e = .logged p b d)
    (hpoint : Done start (tr ++ [e]) ↔ ∃ p L n, k' = .commit p L n ∧ L ≠ [] ∧ L.length < n)
    (hbusy : Busy k ∨ (∃ p, e = .began p) → Busy k')
    (hslots : ∀ p L n, k' = .commit p L n → n ≤ L.length → ∀ j b, j < n → L[j]? = some b →
      replay (tr ++ [e]) d₀ (start + j + 1) = latest d₀ (tr ++ [e]) b) :
    Current start d₀ (tr ++ [e]) k' where
  open_ := by
    intro i p hi
    have hlen : txn (tr ++ [e]) (tr ++ [e]).length = txn tr tr.length := by
      rw [txn_length_snoc, he]; rfl
    rw [hlen]
    rcases get_snoc.mp hi with hi' | ⟨rfl, rfl⟩
    · rw [txn_snoc (lt_of_get hi').le]
      rcases h.open_ i p hi' with ⟨j, last, hij, hj⟩ | ⟨hp, ht⟩
      · exact .inl ⟨j, last, hij, get_snoc.mpr (.inl hj)⟩
      · rcases hopen p hp with hp' | ⟨last, rfl⟩
        · exact .inr ⟨hp', ht⟩
        · exact .inl ⟨tr.length, last, lt_of_get hi', get_snoc.mpr (.inr ⟨rfl, rfl⟩)⟩
    · rw [txn_snoc le_rfl]
      exact .inr ⟨hbegan p rfl, rfl⟩
  blocks := by
    intro b
    rw [txn_length_snoc, he, hblocks, h.blocks, loggedIn_snoc]
    simp
  point := hpoint
  busy := by
    intro i p hi ht
    rcases get_snoc.mp hi with hi' | ⟨-, rfl⟩
    · rw [txn_snoc (lt_of_get hi').le, txn_length_snoc, he] at ht
      exact hbusy (.inl (h.busy i p hi' ht))
    · exact hbusy (.inr ⟨p, rfl⟩)
  slots := hslots

lemma blocks_of_ops (h : ops k = some (S, L, C)) : k.blocks = L := by
  cases k with
  | boot | run S' L' C' =>
    simp only [ops, Option.some.injEq, Prod.mk.injEq] at h
    exact h.2.1
  | commit p L' k => simp [ops] at h

lemma Current.not_done (h : Current start d₀ tr k) (hk : ∀ p L n, k ≠ .commit p L n) :
    ¬ Done start tr := fun hd => by
  obtain ⟨p, L, n, rfl, -⟩ := h.point.mp hd
  exact hk p L n rfl

lemma ops_ne_commit (h : ops k = some (S, L, C)) : ∀ p L n, k ≠ .commit p L n := by
  rintro p L n rfl
  cases h

lemma grouped_op (hG : Grouped start d₀ tr)
    (hC : Current start d₀ tr k) (hk : ops k = some (S, L, C)) (he : isCommitted e = false)
    (hw : ∀ b d, e ≠ .write b d) (hlog : ∀ p b d, e = .logged p b d → inOp p tr = true)
    (hopen : ∀ p ∈ S, p ∈ procs k' ∨ ∃ last, e = .ended p last)
    (hbegan : ∀ p, e = .began p → p ∈ procs k')
    (hblocks : ∀ b, b ∈ k'.blocks ↔ b ∈ L ∨ ∃ p d, e = .logged p b d)
    (hk' : ∀ p L n, k' = .commit p L n → n = 0) (hbusy : Busy k') :
    Grouped start d₀ (tr ++ [e]) ∧ Current start d₀ (tr ++ [e]) k' := by
  have hnd := hC.not_done (ops_ne_commit hk)
  refine ⟨hG.snoc ⟨?_, fun p b d he => ⟨hlog p b d he, hnd⟩, fun d he => absurd he (hw _ d),
    fun p hp => by rw [hp] at he; cases he⟩, hC.snoc he ?_ hbegan ?_ ?_ (fun _ => hbusy)
      fun p L n h _ j b hj => by rw [hk' p L n h] at hj; omega⟩
  · intro i p last _ hi
    exact (hC.open_ i p hi).imp id And.right
  · rw [procs_of_ops hk]; exact hopen
  · rw [blocks_of_ops hk]; exact hblocks
  · rw [done_snoc he fun d h => absurd h (hw _ d)]
    refine ⟨fun h => absurd h hnd, ?_⟩
    rintro ⟨p, L, n, h1, -, h2⟩
    rw [hk' p L n h1] at h2
    omega

lemma replay_write (tr : List Event) (b : ℕ) (d : Block) :
    replay (tr ++ [.write b d]) d₀ = Function.update (replay tr d₀) b d := by
  rw [replay_append]
  rfl

lemma grouped_write {p n b : ℕ} {d : Block} (hG : Grouped start d₀ tr)
    (hC : Current start d₀ tr (.commit p L n)) (hs : start ∉ L) (hn : n < writes L)
    (hb : Planned start L n b d) (hd : ∀ x, L[n]? = some x → d = latest d₀ tr x) :
    Grouped start d₀ (tr ++ [.write b d]) ∧
      Current start d₀ (tr ++ [.write b d]) (.commit p L (n + 1)) := by
  have hL : L ≠ [] := by
    rintro rfl
    simp [writes] at hn
  have hdone : Done start tr ↔ L.length < n := by simp [hC.point, hL]
  -- the write fills slot `n`, or all slots are full
  have hslots : ∀ q L' n', Ctl.commit p L (n + 1) = .commit q L' n' → n' ≤ L'.length → ∀ j x, j < n' →
      L'[j]? = some x → replay (tr ++ [.write b d]) d₀ (start + j + 1) =
        latest d₀ (tr ++ [.write b d]) x := by
    rintro q L' n' ⟨⟩ hle j x hj hx
    rw [Planned, if_pos (by omega)] at hb
    subst hb
    rw [replay_write, latest_of_ne _ _ (by simp)]
    by_cases hjn : j = n
    · subst hjn
      rw [Function.update_self]
      exact hd x hx
    · rw [Function.update_of_ne (by omega)]
      exact hC.slots p L n rfl (by omega) j x (by omega) hx
  have hgoal : (Done start (tr ++ [.write b d]) ↔ L.length < n + 1) →
      Current start d₀ (tr ++ [.write b d]) (.commit p L (n + 1)) := fun h =>
    hC.snoc rfl (by simp [procs]) (by simp) (by simp [Ctl.blocks]) (by simp [h, hL])
      (fun _ => .inr ⟨p, L, n + 1, rfl⟩) hslots
  by_cases hpt : n = L.length
  · -- the commit point
    rw [Planned, if_neg (by omega), if_pos hpt] at hb
    obtain ⟨rfl, hhead⟩ := hb
    refine ⟨hG.snoc ⟨by simp, by simp, ?_, by simp⟩, hgoal ⟨fun _ => by omega, fun _ => ?_⟩⟩
    · rintro d' he -
      cases he
      refine ⟨fun h => by have := hdone.mp h; omega, fun b => ?_, fun i q hi => ?_, fun j x hj => ?_⟩
      · rw [hhead, ← hC.blocks]; rfl
      · exact (hC.open_ i q hi).resolve_right (by simp [procs])
      · rw [hhead] at hj
        exact hC.slots p L n rfl hpt.le j x (by rw [hpt]; exact (List.getElem?_eq_some_iff.mp hj).1) hj
    · refine ⟨tr.length, d, point_snoc.mpr (.inr ⟨rfl, rfl, by rw [hhead]; exact hL⟩), ?_⟩
      rw [txn_length_snoc, txn_snoc le_rfl]
      rfl
  · have hp : ∀ d', Event.write b d = .write start d' → headBlocks d' = [] := by
      rintro d' he
      cases he
      unfold Planned at hb
      rw [if_neg hpt] at hb
      split at hb
      · omega
      · split at hb
        · exact absurd (mem_of_getElem? hb) hs
        · exact hb.2.2
    refine ⟨hG.snoc ⟨by simp, by simp, fun d' he hne => absurd (hp d' he) hne, by simp⟩, hgoal ?_⟩
    rw [done_snoc rfl hp, hdone]
    omega

lemma grouped_committed {p : ℕ} (hG : Grouped start d₀ tr)
    (hC : Current start d₀ tr (.commit p L (writes L))) : Grouped start d₀ (tr ++ [.committed p]) ∧
      Current start d₀ (tr ++ [.committed p]) (.run ∅ [] []) := by
  have hlen : txn (tr ++ [.committed p]) (tr ++ [Event.committed p]).length = txn tr tr.length + 1 := by
    rw [txn_length_snoc]; rfl
  refine ⟨hG.snoc ⟨by simp, by simp, by simp, fun _ _ b hb => ?_⟩, ?_, fun b => ?_, ?_,
    fun i q hi ht => ?_, by simp⟩
  · rw [← hC.blocks] at hb
    have hL : L ≠ [] := ne_nil_of_mem hb
    refine hC.point.mpr ⟨p, L, writes L, rfl, hL, ?_⟩
    rw [writes, if_neg hL]
    omega
  · intro i q hi
    have hi' := (get_snoc.mp hi).resolve_right (by simp)
    obtain ⟨j, last, hij, hj⟩ := (hC.open_ i q hi').resolve_right (by simp [procs])
    exact .inl ⟨j, last, hij, get_snoc.mpr (.inl hj)⟩
  · rw [hlen, loggedIn_snoc]
    simp only [Ctl.blocks, not_mem_nil, false_iff]
    rintro (⟨i, q, d, hi, ht⟩ | ⟨-, q, d, he⟩)
    · have : txn tr i ≤ txn tr tr.length := txn_le i
      omega
    · cases he
  · refine ⟨?_, by simp⟩
    rintro ⟨w, d, hw, ht⟩
    rw [hlen] at ht
    have hw' := (point_snoc.mp hw).resolve_right (by simp)
    rw [txn_snoc (lt_of_get hw'.1).le] at ht
    have : txn tr w ≤ txn tr tr.length := txn_le w
    omega
  · have hi' := (get_snoc.mp hi).resolve_right (by simp)
    rw [hlen, txn_snoc (lt_of_get hi').le] at ht
    have : txn tr i ≤ txn tr tr.length := txn_le i
    omega

lemma Current.settled (h : Current start d₀ tr k) (hk : ctl start tr = some k) : Settled tr := by
  rintro p i j ⟨-, hi, -⟩
  by_cases hlt : txn tr i < txn tr tr.length
  · exact .inl hlt
  · have hle : txn tr i ≤ txn tr tr.length := txn_le i
    rcases h.busy i p hi (by omega) with ⟨q, hq⟩ | ⟨q, L, n, rfl⟩
    · exact .inr ⟨q, .inl ((inOp_iff hk q).mpr hq)⟩
    · exact .inr ⟨q, .inr ((commits_iff hk q).mpr ⟨L, n, rfl⟩)⟩

/-- **A trace in order is grouped**, unless the header block itself is logged. -/
theorem grouped_of_ctl (h : ctl start tr = some k)
    (hs : ∀ p d, .logged p start d ∉ tr) {size : ℕ} (hslots : Always (SlotOk start size d₀) tr) :
    Grouped start d₀ tr ∧ Current start d₀ tr k := by
  refine ctl_induction (P := fun tr k => (∀ p d, .logged p start d ∉ tr) →
    Always (SlotOk start size d₀) tr → Grouped start d₀ tr ∧ Current start d₀ tr k) ?_ ?_ h hs hslots
  · intro _ _
    refine ⟨⟨?_, ?_, ?_, ?_, ?_, ?_, ?_⟩, ⟨?_, ?_, ?_, ?_, ?_⟩⟩ <;>
      simp [IsOp, Point, LoggedIn, Ctl.blocks, Done]
  · rintro tr e k k' hctl ih hn hs hslots
    have hs' : ∀ p d, .logged p start d ∉ tr := fun p d h => hs p d (mem_append_left _ h)
    obtain ⟨hG, hC⟩ := ih hs' (always_snoc.mp hslots).1
    cases hn with
    | @boot b d hb =>
      have hp : ∀ d', Event.write b d = .write start d' → headBlocks d' = [] := by
        rintro d' he
        cases he
        by_contra hne
        exact hb ⟨rfl, hne⟩
      have hnd := hC.not_done (by simp)
      refine ⟨hG.snoc ⟨by simp, by simp, fun d' he hne => absurd (hp d' he) hne, by simp⟩,
        hC.snoc rfl (by simp [procs]) (by simp) (by simp) ?_ (by simp) (by simp)⟩
      rw [done_snoc rfl hp]
      simpa using hnd
    | began hk hp =>
      refine grouped_op hG hC hk rfl (by simp) (by simp) ?_ ?_ ?_ (by simp)
        (.inl ⟨_, Finset.mem_insert_self ..⟩)
      · intro q hq; exact .inl (by simp [procs, hq])
      · rintro q he; cases he; simp [procs]
      · simp [Ctl.blocks]
    | checked hk hp =>
      exact grouped_op hG hC hk rfl (by simp) (by simp) (fun q hq => .inl hq) (by simp)
        (by simp [Ctl.blocks]) (by simp) (.inl ⟨_, hp⟩)
    | @logged k S L C p b d hk hp hb =>
      refine grouped_op hG hC hk rfl (by simp) ?_ (fun q hq => .inl hq) (by simp) ?_ (by simp)
        (.inl ⟨p, hp⟩)
      · rintro q b' d' he
        cases he
        exact (inOp_iff hctl p).mpr (by rw [procs_of_ops hk]; exact hp)
      · intro b'
        simp only [Ctl.blocks, mem_addNew, Event.logged.injEq, exists_and_left, exists_and_right]
        exact or_congr_right ⟨fun h => ⟨⟨p, rfl⟩, h.symm, d, rfl⟩, fun h => h.2.1.symm⟩
    | last hk =>
      refine grouped_op hG hC hk rfl (by simp) (by simp) ?_ (by simp) (by simp [Ctl.blocks]) ?_
        (.inr ⟨_, _, _, rfl⟩)
      · intro q hq
        rw [Finset.mem_singleton] at hq
        exact .inr ⟨true, by rw [hq]⟩
      · rintro q L n he; cases he; rfl
    | @ended k S L C p hk hp hS =>
      have hrest : (S.erase p).Nonempty := by
        rw [Finset.nonempty_iff_ne_empty, ne_eq, Finset.erase_eq_empty_iff]
        rintro (rfl | h)
        · cases hp
        · exact hS h
      refine grouped_op hG hC hk rfl (by simp) (by simp) ?_ (by simp) (by simp [Ctl.blocks]) (by simp)
        (.inl hrest)
      intro q hq
      by_cases hqp : q = p
      · exact .inr ⟨false, by rw [hqp]⟩
      · exact .inl (Finset.mem_erase.mpr ⟨hqp, hq⟩)
    | @write p n b L d hn hb =>
      refine grouped_write hG hC (fun hm => ?_) hn hb fun x hx =>
        ((always_snoc.mp hslots).2 p L n x hctl hx).2
      obtain ⟨i, q, x, hi, -⟩ := (hC.blocks start).mp hm
      exact hs' q x (mem_of_getElem? hi)
    | committed => exact grouped_committed hG hC

end Xv6.Grouping
