import Xv6.Console
import Xv6.Lib.Queue
import Mathlib.Logic.Relation

/-!
What the console is for: a line editor in front of a bounded queue. `consoleintr` edits the
line that is being typed and moves it to the queue when it is complete; `consoleread` takes
bytes off the queue.

A call of `consoleread` holds `cons.lock` except while it sleeps, so a step of the system is
one character or one stretch of a call. A call that sleeps may go on at any time.
-/

namespace Xv6.Console

open Lib.Queue Function List

/-! ### The line editor -/

/-- What readers may have, and what is being typed. -/
@[ext]
structure Editor where
  queue : List UInt8
  line : List UInt8

namespace Editor

def size (a : Editor) : ℕ := a.queue.length + a.line.length

/-- Readers may have the line. -/
def commit (a : Editor) : Editor := ⟨a.queue ++ a.line, []⟩

/-- A character is added to the line if there is room. -/
def type (ch : UInt8) (a : Editor) : Editor :=
  if a.size < INPUT_BUF then
    let b := { a with line := a.line ++ [ch] }
    if ch = newline ∨ ch = ctrl 'D' ∨ b.size = INPUT_BUF then b.commit else b
  else a

def key (ch : UInt8) (a : Editor) : Editor :=
  if ch = ctrl 'P' ∨ ch = 0 then a
  else if ch = ctrl 'H' ∨ ch = 0x7f then { a with line := a.line.dropLast }
  else if ch = ctrl 'U' then { a with line := [] }
  else a.type (if isReturn ch then newline else ch)

end Editor

/-- What a call gets off the queue that has read `i` bytes and wants `k` more: the bytes, the
rest of the queue, and how it ends. -/
def take : ℕ → ℕ → List UInt8 → List UInt8 × List UInt8 × Ends
  | 0, i, q => ([], q, .returns i)
  | _ + 1, i, [] => ([], [], .sleeps i)
  | k + 1, i, ch :: q =>
    -- only a call that has read nothing takes a `^D`
    if ch = ctrl 'D' then (if 0 < i then ([], ch :: q, .returns i) else ([], q, .returns i))
    else if ch = newline then ([ch], q, .returns (i + 1))
    else (ch :: (take k (i + 1) q).1, (take k (i + 1) q).2)

/-! ### The console refines it -/

/-- The console's buffer holds the queue and the line of `a`. -/
structure Stores (c : Cons) (a : Editor) : Prop where
  holds : Holds INPUT_BUF (2 ^ 32) c.buf c.r c.e (a.queue ++ a.line)
  w_eq : c.w = (c.r + a.queue.length) % 2 ^ 32
  plain : newline ∉ a.line

lemma buf_lt : INPUT_BUF < 2 ^ 32 := by decide

lemma buf_dvd : INPUT_BUF ∣ 2 ^ 32 := by decide

namespace Stores

variable {c : Cons} {a : Editor} {ch : UInt8}

section

variable {l : List UInt8} {k : ℕ} (h : Stores c a)

include h

lemma queue : Holds INPUT_BUF (2 ^ 32) c.buf c.r c.w a.queue := by
  rw [h.w_eq]
  exact h.holds.left

lemma line : Holds INPUT_BUF (2 ^ 32) c.buf c.w c.e a.line := by
  rw [h.w_eq]
  exact h.holds.right

lemma size_le : a.size ≤ INPUT_BUF := by
  simpa [Editor.size] using h.holds.length_le

lemma size_eq : (c.e + 2 ^ 32 - c.r) % 2 ^ 32 = a.size := by
  rw [h.holds.count buf_lt, List.length_append, Editor.size]

lemma line_nil : c.e = c.w ↔ a.line = [] :=
  eq_comm.trans (h.line.empty_iff buf_lt)

lemma back (hl : a.line = l ++ [ch]) :
    Stores c.back { a with line := l } := by
  have hholds : Holds INPUT_BUF (2 ^ 32) c.buf c.r c.e ((a.queue ++ l) ++ [ch]) := by
    rw [append_assoc, ← hl]
    exact h.holds
  unfold Cons.back
  refine ⟨hholds.unput, h.w_eq, fun hn => h.plain ?_⟩
  rw [hl]
  exact mem_append_left _ hn

lemma last_ne (hl : a.line = l ++ [ch]) :
    c.buf ((c.e + 2 ^ 32 - 1) % 2 ^ 32 % INPUT_BUF) ≠ newline := by
  have hline := h.line
  rw [hl] at hline
  rw [hline.last]
  rintro rfl
  apply h.plain
  simp [hl]

lemma killLine (hk : a.line.length = k) :
    Stores (killLine k c) { a with line := [] } := by
  induction k generalizing c a with
  | zero =>
    rw [length_eq_zero_iff] at hk
    rw [Console.killLine, ← hk]
    exact h
  | succ k ih =>
    rcases eq_nil_or_concat' a.line with hnil | ⟨l, ch, hl⟩
    · rw [hnil] at hk
      cases hk
    · have hne : c.e ≠ c.w := by
        rw [Ne, h.line_nil, hl]
        simp
      rw [Console.killLine, if_pos ⟨hne, h.last_ne hl⟩]
      apply ih (h.back hl)
      simpa [hl] using hk

lemma store (hroom : a.size < INPUT_BUF) (ch : UInt8) :
    Stores (c.store ch) (a.type ch) := by
  set b : Editor := { a with line := a.line ++ [ch] } with hb
  have hholds : Holds INPUT_BUF (2 ^ 32) (update c.buf (c.e % INPUT_BUF) ch) c.r
      ((c.e + 1) % 2 ^ 32) (b.queue ++ b.line) := by
    rw [hb, ← append_assoc]
    refine h.holds.put buf_dvd ?_ ch
    simpa [Editor.size] using hroom
  have hfull : (c.e + 1) % 2 ^ 32 = (c.r + INPUT_BUF) % 2 ^ 32 ↔ b.size = INPUT_BUF := by
    rw [hholds.full_iff buf_lt, List.length_append, Editor.size]
  rw [Editor.type, if_pos hroom]
  simp only [Cons.store, hfull, ← hb]
  split
  · refine ⟨?_, ?_, not_mem_nil⟩
    · simpa [Editor.commit] using hholds
    · simpa [Editor.commit] using hholds.write_eq
  · rename_i hopen
    refine ⟨hholds, h.w_eq, fun hn => ?_⟩
    rcases mem_append.mp hn with hn | hn
    · exact h.plain hn
    · exact hopen (.inl (mem_singleton.mp hn).symm)

/-- A character that is typed does to the console what it does to the line editor. -/
lemma consoleintr (ch : UInt8) : Stores (consoleintr ch c) (a.key ch) := by
  unfold Console.consoleintr Editor.key
  by_cases hP : ch = ctrl 'P'
  · rw [if_pos hP, if_pos (.inl hP)]
    exact h
  rw [if_neg hP]
  by_cases hU : ch = ctrl 'U'
  · subst hU
    rw [if_pos rfl, if_neg (by decide), if_neg (by decide), if_pos rfl]
    exact h.killLine (h.line.count buf_lt).symm
  rw [if_neg hU]
  by_cases hH : ch = ctrl 'H' ∨ ch = 0x7f
  · have hother : ¬ (ch = ctrl 'P' ∨ ch = 0) := by
      rintro (rfl | rfl)
      · exact hP rfl
      · revert hH
        decide
    rw [if_pos hH, if_neg hother, if_pos hH]
    rcases eq_nil_or_concat' a.line with hnil | ⟨l, ch', hl⟩
    · rw [if_neg (by simpa using h.line_nil.mpr hnil), hnil, dropLast_nil, ← hnil]
      exact h
    · rw [if_pos (by rw [Ne, h.line_nil, hl]; simp), hl, dropLast_concat]
      exact h.back hl
  rw [if_neg hH, h.size_eq]
  by_cases h0 : ch = 0
  · rw [if_neg (by simp [h0]), if_pos (.inr h0)]
    exact h
  · have hother : ¬ (ch = ctrl 'P' ∨ ch = 0) := not_or.mpr ⟨hP, h0⟩
    rw [if_neg hother, if_neg hH, if_neg hU]
    by_cases hroom : a.size < INPUT_BUF
    · rw [if_pos ⟨h0, hroom⟩]
      exact h.store hroom _
    · rw [if_neg (fun hc => hroom hc.2), Editor.type, if_neg hroom]
      exact h

lemma read {q : List UInt8} (hq : a.queue = ch :: q) :
    c.buf (c.r % INPUT_BUF) = ch ∧
    Stores { c with r := (c.r + 1) % 2 ^ 32 } { a with queue := q } := by
  have hholds := h.holds
  rw [hq, cons_append] at hholds
  refine ⟨hholds.front, hholds.get, ?_, h.plain⟩
  change c.w = ((c.r + 1) % 2 ^ 32 + q.length) % 2 ^ 32
  rw [h.w_eq, hq, length_cons, Nat.mod_add_mod, Nat.add_right_comm, Nat.add_assoc]

lemma readLoop {i : ℕ} :
    (readLoop (fun _ => true) false k i c).2 = ((take k i a.queue).1, (take k i a.queue).2.2) ∧
    Stores (Console.readLoop (fun _ => true) false k i c).1
      { a with queue := (take k i a.queue).2.1 } := by
  induction k generalizing i c a with
  | zero => exact ⟨rfl, h⟩
  | succ k ih =>
    cases hq : a.queue with
    | nil =>
      have hempty : c.r = c.w := (h.queue.empty_iff buf_lt).mpr hq
      simp only [Console.readLoop, take, if_pos hempty]
      rw [← hq]
      exact ⟨rfl, h⟩
    | cons ch q =>
      have hne : ¬ c.r = c.w := by
        rw [h.queue.empty_iff buf_lt, hq]
        simp
      obtain ⟨hch, hread⟩ := h.read hq
      simp only [Console.readLoop, take, if_neg hne, hch]
      by_cases hD : ch = ctrl 'D'
      · simp only [if_pos hD]
        split
        · rw [← hq]
          exact ⟨rfl, h⟩
        · exact ⟨rfl, hread⟩
      · simp only [if_neg hD]
        by_cases hn : ch = newline
        · simp only [if_pos hn]
          exact ⟨rfl, hread⟩
        · simp only [if_neg hn]
          obtain ⟨hout, hstores⟩ := ih (i := i + 1) hread
          simp only [Bool.true_eq_false, if_false]
          rw [hout]
          exact ⟨rfl, hstores⟩

end

end Stores

/-! ### What a call gets -/

/-- Bytes that end no line. -/
def Plain (l : List UInt8) : Prop := newline ∉ l ∧ ctrl 'D' ∉ l

lemma Plain.append {l : List UInt8} {ch : UInt8} (h : Plain l) (hn : ch ≠ newline)
    (hD : ch ≠ ctrl 'D') : Plain (l ++ [ch]) := by
  refine ⟨?_, ?_⟩
  · simpa [h.1] using hn.symm
  · simpa [h.2] using hD.symm

/-- Why a call for `n` bytes is over that has copied `got` to its destination and taken `took`
off the queue, where `next` is next in the queue: it has got all bytes, or a whole line, or it
has taken a `^D`, or has left one behind its bytes. -/
inductive Ended (n : ℕ) (got took : List UInt8) (next : Option UInt8) : Prop
  | full (hlen : got.length = n) (hplain : Plain got) (htook : took = got)
  | line {l : List UInt8} (hgot : got = l ++ [newline]) (hlen : got.length ≤ n) (hplain : Plain l)
      (htook : took = got)
  | taken (hgot : got = []) (htook : took = [ctrl 'D'])
  | left (hgot : got ≠ []) (hlen : got.length < n) (hplain : Plain got) (htook : took = got)
      (hnext : next = some (ctrl 'D'))

/-- How a stretch leaves a call. -/
def Left (n : ℕ) (got took : List UInt8) (next : Option UInt8) : Ends → Prop
  | .sleeps j => j = got.length ∧ j ≤ n ∧ Plain got ∧ took = got
  | .returns r => r = got.length ∧ Ended n got took next

lemma take_left {k i n : ℕ} {q got : List UInt8} (hlen : got.length = i) (hn : i + k = n)
    (hplain : Plain got) :
    ∃ t, q = t ++ (take k i q).2.1 ∧
      Left n (got ++ (take k i q).1) (got ++ t) (take k i q).2.1.head? (take k i q).2.2 := by
  induction k generalizing i q got with
  | zero =>
    refine ⟨[], rfl, by simp [take, hlen], .full ?_ ?_ (by simp [take])⟩
    · simpa [take, hlen] using hn
    · simpa [take] using hplain
  | succ k ih =>
    cases q with
    | nil => exact ⟨[], rfl, by simp [take, hlen], by omega, by simpa [take] using hplain,
        by simp [take]⟩
    | cons ch q =>
      by_cases hD : ch = ctrl 'D'
      · by_cases hi : 0 < i
        · simp only [take, if_pos hD, if_pos hi, append_nil]
          refine ⟨[], rfl, by rw [hlen], .left ?_ (by omega) hplain (by simp) (by simp [hD])⟩
          exact length_pos_iff.mp (by omega)
        · have hnil : got = [] := length_eq_zero_iff.mp (by omega)
          simp only [take, if_pos hD, if_neg hi, append_nil]
          exact ⟨[ch], rfl, by rw [hlen], .taken hnil (by simp [hnil, hD])⟩
      · by_cases hline : ch = newline
        · subst hline
          simp only [take, if_neg hD, if_true]
          refine ⟨[newline], rfl, by simp [hlen], .line rfl ?_ hplain rfl⟩
          rw [List.length_append, length_singleton]
          omega
        · simp only [take, if_neg hD, if_neg hline]
          have hlen' : (got ++ [ch]).length = i + 1 := by simp [hlen]
          obtain ⟨t, ht, hleft⟩ := ih (q := q) hlen' (by omega) (hplain.append hline hD)
          refine ⟨ch :: t, by rw [cons_append, ← ht], ?_⟩
          simpa using hleft

/-! ### The system -/

/-- The bytes of the buffer from index `i` on. -/
def Cons.bytes (c : Cons) (i m : ℕ) : List UInt8 :=
  (List.range m).map fun j => c.buf ((i + j) % 2 ^ 32 % INPUT_BUF)

/-- What the buffer holds: what is between `r` and `w`, and between `w` and `e`. -/
def Cons.editor (c : Cons) : Editor where
  queue := c.bytes c.r ((c.w + 2 ^ 32 - c.r) % 2 ^ 32)
  line := c.bytes c.w ((c.e + 2 ^ 32 - c.w) % 2 ^ 32)

lemma Stores.editor_eq {c : Cons} {a : Editor} (h : Stores c a) : c.editor = a := by
  ext1
  · rw [Cons.editor, Cons.bytes, h.queue.count buf_lt]
    exact h.queue.eq_map.symm
  · rw [Cons.editor, Cons.bytes, h.line.count buf_lt]
    exact h.line.eq_map.symm

structure World where
  cons : Cons
  /-- The calls made so far are those below `next`. -/
  next : ℕ
  /-- How many bytes a call wants. -/
  call : ℕ → Option ℤ
  /-- How many bytes a call has copied that has not returned. -/
  pos : ℕ → Option ℕ
  /-- All bytes that readers could have so far. -/
  entered : List UInt8
  /-- All bytes taken off the queue so far, each with the call that did it. -/
  taken : List (ℕ × UInt8)
  /-- The bytes that a call has copied to its destination. -/
  got : ℕ → List UInt8
  /-- What a call has returned, and what was next in the queue then. -/
  ret : ℕ → Option (ℤ × Option UInt8)

def Ends.pos : Ends → Option ℕ
  | .sleeps i => some i
  | .returns _ => none

def Ends.ret : Ends → Option ℤ
  | .sleeps _ => none
  | .returns r => some r

namespace World

/-- An empty buffer with all indices at `v`. -/
def start (buf : ℕ → UInt8) (v : ℕ) : World :=
  ⟨⟨buf, v, v, v⟩, 0, fun _ => none, fun _ => none, [], [], fun _ => [], fun _ => none⟩

/-- A character is typed. -/
def type (w : World) (ch : UInt8) : World :=
  { w with
    cons := consoleintr ch w.cons
    entered := w.entered ++
      (consoleintr ch w.cons).editor.queue.drop w.cons.editor.queue.length }

def begin (w : World) (n : ℤ) : World :=
  { w with
    next := w.next + 1
    call := update w.call w.next (some n)
    pos := update w.pos w.next (some 0) }

/-- A stretch of call `c`, which wants `n` bytes and has copied `i`. -/
def run (w : World) (c : ℕ) (n : ℤ) (i : ℕ) : World :=
  let o := consoleread (fun _ => true) n false i w.cons
  let before := w.cons.editor.queue
  let after := o.1.editor.queue
  { w with
    cons := o.1
    pos := update w.pos c o.2.2.pos
    taken := w.taken ++ (before.take (before.length - after.length)).map fun ch => (c, ch)
    got := update w.got c (w.got c ++ o.2.1)
    ret := update w.ret c (o.2.2.ret.map fun r => (r, after.head?)) }

/-- The bytes that call `c` has taken off the queue. -/
def took (w : World) (c : ℕ) : List UInt8 := part w.taken c

end World

inductive Step (w : World) : World → Prop
  | type (ch : UInt8) : Step w (w.type ch)
  | begin (n : ℤ) : Step w (w.begin n)
  | run {c i : ℕ} {n : ℤ} (hn : w.call c = some n) (hi : w.pos c = some i) : Step w (w.run c n i)

def Reach (w₀ w : World) : Prop := Relation.ReflTransGen Step w₀ w

/-! ### Whole runs -/

/-- What holds of a call that wants `n` bytes. -/
structure CallOk (w : World) (c : ℕ) (n : ℤ) : Prop where
  waits : ∀ i, w.pos c = some i → Left n.toNat (w.got c) (w.took c) none (.sleeps i)
  ended : ∀ r next, w.ret c = some (r, next) →
    Left n.toNat (w.got c) (w.took c) next (.returns r)

structure Inv (w : World) : Prop where
  stores : Stores w.cons w.cons.editor
  entered : w.entered = w.taken.map Prod.snd ++ w.cons.editor.queue
  past : ∀ e ∈ w.taken, e.1 < w.next
  fresh : ∀ c, w.next ≤ c → w.call c = none ∧ w.got c = [] ∧ w.ret c = none
  calls : ∀ c n, w.call c = some n → CallOk w c n

variable {w w' : World} {c i v : ℕ} {n : ℤ}

lemma CallOk.congr (h : CallOk w c n) (hpos : w'.pos c = w.pos c) (hgot : w'.got c = w.got c)
    (htook : w'.took c = w.took c) (hret : w'.ret c = w.ret c) : CallOk w' c n := by
  refine ⟨?_, ?_⟩
  · rw [hpos, hgot, htook]
    exact h.waits
  · rw [hret, hgot, htook]
    exact h.ended

lemma inv_start (buf : ℕ → UInt8) (hv : v < 2 ^ 32) : Inv (World.start buf v) := by
  have hstores : Stores ⟨buf, v, v, v⟩ ⟨[], []⟩ :=
    ⟨.nil hv, (Nat.mod_eq_of_lt hv).symm, not_mem_nil⟩
  have heq : (World.start buf v).cons.editor = ⟨[], []⟩ := hstores.editor_eq
  refine ⟨by rw [heq]; exact hstores, by rw [heq]; rfl, by simp [World.start],
    fun _ _ => ⟨rfl, rfl, rfl⟩, by simp [World.start]⟩

lemma Editor.queue_key (a : Editor) (ch : UInt8) :
    a.queue ++ (a.key ch).queue.drop a.queue.length = (a.key ch).queue := by
  have hprefix : a.queue <+: (a.key ch).queue := by
    unfold Editor.key Editor.type Editor.commit
    dsimp only
    split_ifs <;> simp
  obtain ⟨l, hl⟩ := hprefix
  rw [← hl, drop_left]

lemma Inv.type (h : Inv w) (ch : UInt8) : Inv (w.type ch) := by
  have hstores := h.stores.consoleintr ch
  have heq : (w.type ch).cons.editor = w.cons.editor.key ch := hstores.editor_eq
  refine ⟨by rw [heq]; exact hstores, ?_, h.past, h.fresh, fun c n hc => ?_⟩
  · rw [heq, ← Editor.queue_key, ← append_assoc]
    change w.entered ++ (Console.consoleintr ch w.cons).editor.queue.drop _ = _
    rw [hstores.editor_eq, h.entered]
    rfl
  · exact (h.calls c n hc).congr rfl rfl rfl rfl

lemma Inv.took_next (h : Inv w) : w.took w.next = [] := part_eq_nil fun e he => (h.past e he).ne

lemma Inv.begin (h : Inv w) (n : ℤ) : Inv (w.begin n) := by
  refine ⟨h.stores, h.entered, fun e he => Nat.lt_succ_of_lt (h.past e he), fun c hc => ?_,
    fun c m hc => ?_⟩
  · change w.next + 1 ≤ c at hc
    obtain ⟨hcall, hrest⟩ := h.fresh c (by omega)
    refine ⟨?_, hrest⟩
    change update w.call w.next (some n) c = none
    rwa [update_of_ne (by omega)]
  · change update w.call w.next (some n) c = _ at hc
    by_cases hnew : c = w.next
    · subst hnew
      obtain ⟨-, hgot, hret⟩ := h.fresh w.next le_rfl
      refine ⟨fun i hi => ?_, fun r next hr => ?_⟩
      · change update w.pos w.next (some 0) w.next = _ at hi
        rw [update_self, Option.some.injEq] at hi
        change Left _ (w.got w.next) (w.took w.next) none _
        rw [hgot, h.took_next, ← hi]
        exact ⟨rfl, Nat.zero_le _, ⟨not_mem_nil, not_mem_nil⟩, rfl⟩
      · exact absurd (hr.symm.trans hret) (by simp)
    · rw [update_of_ne hnew] at hc
      exact (h.calls c m hc).congr (update_of_ne hnew _ _) rfl rfl rfl

lemma take_sub_length {q t rest : List UInt8} (h : q = t ++ rest) :
    q.take (q.length - rest.length) = t := by
  rw [h, List.length_append, Nat.add_sub_cancel, List.take_left]

lemma World.run_eq {t : List UInt8} (h : Stores w.cons w.cons.editor)
    (ht : w.cons.editor.queue = t ++ (take (n.toNat - i) i w.cons.editor.queue).2.1) :
    w.run c n i = { w with
      cons := (consoleread (fun _ => true) n false i w.cons).1
      pos := update w.pos c (take (n.toNat - i) i w.cons.editor.queue).2.2.pos
      taken := w.taken ++ t.map fun ch => (c, ch)
      got := update w.got c (w.got c ++ (take (n.toNat - i) i w.cons.editor.queue).1)
      ret := update w.ret c ((take (n.toNat - i) i w.cons.editor.queue).2.2.ret.map
        fun r => (r, (take (n.toNat - i) i w.cons.editor.queue).2.1.head?)) } := by
  obtain ⟨hout, hstores⟩ := h.readLoop (k := n.toNat - i) (i := i)
  have hlost := take_sub_length ht
  simp only [World.run, consoleread, hout, hstores.editor_eq, hlost]

lemma Ends.sleeps_of_pos {x : Ends} {j : ℕ} (h : x.pos = some j) : x = .sleeps j := by
  cases x with
  | sleeps j' =>
    cases h
    rfl
  | returns r => cases h

lemma Ends.returns_of_ret {x : Ends} {r : ℤ} (h : x.ret = some r) : x = .returns r := by
  cases x with
  | sleeps j => cases h
  | returns r' =>
    cases h
    rfl

lemma Inv.call_lt (h : Inv w) (hn : w.call c = some n) : c < w.next := by
  by_contra hc
  rw [(h.fresh c (by omega)).1] at hn
  cases hn

lemma Inv.run (h : Inv w) (hn : w.call c = some n) (hi : w.pos c = some i) : Inv (w.run c n i) := by
  obtain ⟨hpos, hle, hplain, htook⟩ := (h.calls c n hn).waits i hi
  obtain ⟨-, hstores⟩ := h.stores.readLoop (k := n.toNat - i) (i := i)
  obtain ⟨t, ht, hleft⟩ := take_left (q := w.cons.editor.queue) hpos.symm
    (Nat.add_sub_cancel' hle) hplain
  have heq := hstores.editor_eq
  rw [World.run_eq h.stores ht]
  generalize take (n.toNat - i) i w.cons.editor.queue = T at ht hleft hstores heq ⊢
  refine ⟨?_, ?_, fun e he => ?_, fun d hd => ?_, fun d m hd => ?_⟩
  · rw [consoleread, heq]
    exact hstores
  · rw [consoleread, heq, h.entered, map_append, map_map, append_assoc]
    congr 1
    conv_lhs => rw [ht]
    congr 1
    exact (map_id t).symm
  · rcases mem_append.mp he with he | he
    · exact h.past e he
    · obtain ⟨ch, -, rfl⟩ := mem_map.mp he
      exact h.call_lt hn
  · have hdc : d ≠ c := by
      rintro rfl
      exact absurd (h.call_lt hn) (Nat.not_lt.mpr hd)
    obtain ⟨hcall, hgot, hret⟩ := h.fresh d hd
    exact ⟨hcall, (update_of_ne hdc _ _).trans hgot,
      (update_of_ne hdc _ _).trans hret⟩
  · by_cases hdc : d = c
    · subst hdc
      obtain rfl : n = m := Option.some.inj (hn.symm.trans hd)
      have htook' : part (w.taken ++ t.map fun ch => (d, ch)) d = w.got d ++ t := by
        rw [part_append_self, ← htook]
        rfl
      refine ⟨fun j hj => ?_, fun r next hr => ?_⟩
      · dsimp only at hj
        rw [update_self] at hj
        rw [Ends.sleeps_of_pos hj] at hleft
        have hwaits : Left n.toNat (w.got d ++ T.1) (w.got d ++ t) none (.sleeps j) := hleft
        simpa [World.took, htook'] using hwaits
      · dsimp only at hr
        rw [update_self] at hr
        obtain ⟨r', hends, heq'⟩ := Option.map_eq_some_iff.mp hr
        cases heq'
        rw [Ends.returns_of_ret hends] at hleft
        simpa [World.took, htook'] using hleft
    · exact (h.calls d m hd).congr (update_of_ne hdc _ _) (update_of_ne hdc _ _)
        (part_append_of_ne hdc) (update_of_ne hdc _ _)

lemma Inv.step (h : Inv w) (hs : Step w w') : Inv w' := by
  cases hs with
  | type ch => exact h.type ch
  | begin n => exact h.begin n
  | run hn hi => exact h.run hn hi

lemma Reach.inv {buf : ℕ → UInt8} (hv : v < 2 ^ 32) (h : Reach (World.start buf v) w) : Inv w := by
  induction h with
  | refl => exact inv_start buf hv
  | tail _ hs ih => exact ih.step hs

/-- **The console is a line editor in front of a bounded queue**, whatever is typed and read,
from any value of the indices. -/
theorem console_line_editor {buf : ℕ → UInt8} (hv : v < 2 ^ 32)
    (h : Reach (World.start buf v) w) :
    w.cons.editor.size ≤ INPUT_BUF ∧
    ((w.cons.w + 2 ^ 32 - w.cons.r) % 2 ^ 32 ≤ (w.cons.e + 2 ^ 32 - w.cons.r) % 2 ^ 32 ∧
      (w.cons.e + 2 ^ 32 - w.cons.r) % 2 ^ 32 ≤ INPUT_BUF) ∧
    (∀ ch, (consoleintr ch w.cons).editor = w.cons.editor.key ch) ∧
    (∀ n i, ∃ bytes rest ends, take (n.toNat - i) i w.cons.editor.queue = (bytes, rest, ends) ∧
      (consoleread (fun _ => true) n false i w.cons).1.editor = ⟨rest, w.cons.editor.line⟩ ∧
      (consoleread (fun _ => true) n false i w.cons).2 = (bytes, ends)) ∧
    w.entered = w.taken.map Prod.snd ++ w.cons.editor.queue ∧
    ∀ c n, w.call c = some n →
      (∀ i, w.pos c = some i → w.took c = w.got c ∧ (w.got c).length = i ∧ Plain (w.got c)) ∧
      ∀ r next, w.ret c = some (r, next) →
        r = (w.got c).length ∧ Ended n.toNat (w.got c) (w.took c) next := by
  have hI := h.inv hv
  have hst := hI.stores
  refine ⟨hst.size_le, ⟨?_, ?_⟩, fun ch => (hst.consoleintr ch).editor_eq, fun n i => ?_,
    hI.entered, fun c n hc => ⟨fun i hi => ?_, (hI.calls c n hc).ended⟩⟩
  · rw [hst.queue.count buf_lt, hst.size_eq, Editor.size]
    omega
  · rw [hst.size_eq]
    exact hst.size_le
  · obtain ⟨hout, hstores⟩ := hst.readLoop (k := n.toNat - i) (i := i)
    exact ⟨_, _, _, rfl, hstores.editor_eq, hout⟩
  · obtain ⟨hpos, -, hplain, htook⟩ := (hI.calls c n hc).waits i hi
    exact ⟨htook, hpos.symm, hplain⟩

/-- The world after `a`, `b`, `^H` and a newline were typed and a call has read the line, with the
indices wrapping around. -/
def typed : World :=
  ((((((World.start (fun _ => 0) (2 ^ 32 - 1)).type 97).type 98).type (ctrl 'H')).type
    newline).begin 5).run 0 5 0

lemma typed_reach : Reach (World.start (fun _ => 0) (2 ^ 32 - 1)) typed := by
  refine .tail (.tail (.tail (.tail (.tail (.single (.type _)) (.type _)) (.type _)) (.type _))
    (.begin _)) (.run ?_ ?_)
  all_goals rfl

theorem console_line_editor_typed :
    typed.cons.r = 1 ∧ typed.got 0 = [97, newline] ∧ typed.ret 0 = some (2, none) ∧
    Ended 5 (typed.got 0) (typed.took 0) none := by
  refine ⟨by decide, by decide, by decide, ?_⟩
  have h := console_line_editor (by decide) typed_reach
  exact ((h.2.2.2.2.2 0 5 rfl).2 2 none (by decide)).2

end Xv6.Console
