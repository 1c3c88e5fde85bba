import Xv6.Lib.Text

/-!
`user/grep.c`: the matcher, and the loop that reads the input and prints its lines.

A string is the list of its bytes up to the NUL. The input comes in pieces: a `read` returns as
many bytes as it is asked for, or fewer, and none only if it is asked for none or the input has
come to its end.
-/

namespace Xv6.Grep

open Lib.Text List

variable {re text s t l u v : List UInt8} {c x : UInt8}

/-! ### The matcher -/

/-- `matchstar`, for an expression that `here` matches at the beginning of a text. -/
def matchstar (here : List UInt8 → Bool) (c : UInt8) : List UInt8 → Bool
  | [] => here []
  | t :: text => here (t :: text) || (t == c || c == ch '.') && matchstar here c text

/-- The last test of `matchhere`, with `here` for the rest of the expression. -/
def matchone (here : List UInt8 → Bool) (c : UInt8) : List UInt8 → Bool
  | [] => false
  | t :: text => (c == ch '.' || c == t) && here text

def matchhere : List UInt8 → List UInt8 → Bool
  | [], _ => true
  | [c], text => if c = ch '$' then text.isEmpty else matchone (matchhere []) c text
  | c :: d :: re, text =>
    if d = ch '*' then matchstar (matchhere re) c text else matchone (matchhere (d :: re)) c text

/-- The loop of `match`: the text and each of its suffixes. -/
def matchany (re : List UInt8) : List UInt8 → Bool
  | [] => matchhere re []
  | t :: text => matchhere re (t :: text) || matchany re text

/-- `match` -/
def matchRe (re text : List UInt8) : Bool :=
  if re.head? = some (ch '^') then matchhere re.tail text else matchany re text

/-! ### The language of an expression -/

inductive Item
  | one (c : UInt8)
  | star (c : UInt8)
  | eol

/-- The items of an expression, from left to right. -/
def items : List UInt8 → List Item
  | [] => []
  | [c] => if c = ch '$' then [.eol] else [.one c]
  | c :: d :: re => if d = ch '*' then .star c :: items re else .one c :: items (d :: re)

/-- Character `c` of an expression stands for `x`. -/
def Stands (c x : UInt8) : Prop := c = ch '.' ∨ c = x

/-- The string `u` is in the language of the items when `v` is what follows it in the text. -/
inductive Denotes : List Item → List UInt8 → List UInt8 → Prop
  | nil {v : List UInt8} : Denotes [] [] v
  | eol : Denotes [.eol] [] []
  | one {c x : UInt8} {its : List Item} {u v : List UInt8} (hx : Stands c x)
      (h : Denotes its u v) : Denotes (.one c :: its) (x :: u) v
  | star {c : UInt8} {its : List Item} {w u v : List UInt8} (hw : ∀ x ∈ w, Stands c x)
      (h : Denotes its u v) : Denotes (.star c :: its) (w ++ u) v

/-- The text begins with a string of the language. -/
def Begins (its : List Item) (text : List UInt8) : Prop :=
  ∃ u v, text = u ++ v ∧ Denotes its u v

lemma matchone_iff (here : List UInt8 → Bool) :
    matchone here c text = true ↔ ∃ x v, text = x :: v ∧ Stands c x ∧ here v = true := by
  cases text with
  | nil => simp [matchone]
  | cons t text =>
    constructor
    · intro h
      simp only [matchone, Bool.and_eq_true, Bool.or_eq_true, beq_iff_eq] at h
      exact ⟨t, text, rfl, h⟩
    · rintro ⟨x, v, he, h⟩
      cases he
      simp only [matchone, Bool.and_eq_true, Bool.or_eq_true, beq_iff_eq]
      exact h

lemma matchstar_iff (here : List UInt8 → Bool) : matchstar here c text = true ↔
    ∃ w v, text = w ++ v ∧ (∀ x ∈ w, Stands c x) ∧ here v = true := by
  induction text with
  | nil => simp [matchstar]
  | cons t text ih =>
    simp only [matchstar, Bool.or_eq_true, Bool.and_eq_true, beq_iff_eq, ih]
    constructor
    · rintro (h | ⟨ht, w, v, rfl, hw, h⟩)
      · exact ⟨[], _, rfl, by simp, h⟩
      · refine ⟨t :: w, v, rfl, ?_, h⟩
        rintro x (_ | ⟨_, hx⟩)
        · exact ht.symm.imp id Eq.symm
        · exact hw x hx
    · rintro ⟨_ | ⟨x, w⟩, v, he, hw, h⟩
      · exact .inl (he ▸ h)
      · cases he
        refine .inr ⟨?_, w, v, rfl, fun y hy => hw y (mem_cons_of_mem _ hy), h⟩
        exact ((hw t (mem_cons_self ..)).imp id Eq.symm).symm

lemma begins_one {its : List Item} :
    Begins (.one c :: its) text ↔ ∃ x v, text = x :: v ∧ Stands c x ∧ Begins its v := by
  constructor
  · rintro ⟨u, v, rfl, h⟩
    cases h with
    | one hx h => exact ⟨_, _, rfl, hx, _, _, rfl, h⟩
  · rintro ⟨x, _, rfl, hx, u, v, rfl, h⟩
    exact ⟨x :: u, v, rfl, .one hx h⟩

lemma begins_star {its : List Item} : Begins (.star c :: its) text ↔
    ∃ w v, text = w ++ v ∧ (∀ x ∈ w, Stands c x) ∧ Begins its v := by
  constructor
  · rintro ⟨u, v, rfl, h⟩
    cases h with
    | star hw h => exact ⟨_, _, append_assoc .., hw, _, _, rfl, h⟩
  · rintro ⟨w, _, rfl, hw, u, v, rfl, h⟩
    exact ⟨w ++ u, v, (append_assoc ..).symm, .star hw h⟩

lemma matchhere_iff (re text : List UInt8) :
    matchhere re text = true ↔ Begins (items re) text := by
  have hnil : ∀ v, Begins [] v := fun v => ⟨[], v, rfl, .nil⟩
  induction re using items.induct generalizing text with
  | case1 => simpa [matchhere, items] using hnil text
  | case2 =>
    simp only [matchhere, items, if_true, List.isEmpty_iff]
    constructor
    · rintro rfl
      exact ⟨[], [], rfl, .eol⟩
    · rintro ⟨u, v, rfl, h⟩
      cases h
      rfl
  | case3 c hc =>
    simp only [matchhere, items, hc, if_false, matchone_iff, begins_one]
    simp [hnil]
  | case4 c re ih =>
    simp only [matchhere, items, if_true, matchstar_iff, begins_star, ih]
  | case5 c d re hd ih =>
    simp only [matchhere, items, hd, if_false, matchone_iff, begins_one, ih]

lemma matchany_iff : matchany re text = true ↔ ∃ w v, text = w ++ v ∧ matchhere re v = true := by
  induction text with
  | nil => simp [matchany]
  | cons t text ih =>
    simp only [matchany, Bool.or_eq_true, ih]
    constructor
    · rintro (h | ⟨w, v, rfl, h⟩)
      · exact ⟨[], _, rfl, h⟩
      · exact ⟨t :: w, v, rfl, h⟩
    · rintro ⟨_ | ⟨x, w⟩, v, he, h⟩
      · exact .inl (he ▸ h)
      · cases he
        exact .inr ⟨w, v, rfl, h⟩

/-- **The matcher decides its language**: some suffix of the text begins with a string of the
language, the text itself if the expression starts with `^`. -/
theorem match_decides (re text : List UInt8) : matchRe re text = true ↔
    if re.head? = some (ch '^') then Begins (items re.tail) text
    else ∃ w v, text = w ++ v ∧ Begins (items re) v := by
  unfold matchRe
  split
  · exact matchhere_iff ..
  · simp only [matchany_iff, matchhere_iff]

example : matchRe [ch 'a', ch '*', ch 'b', ch '$'] [ch 'c', ch 'a', ch 'a', ch 'b'] = true := by
  decide

/-! ### The lines -/

/-- `strchr`: the offset of the first `c` before the NUL. -/
def strchr (c : UInt8) : List UInt8 → Option ℕ
  | [] => none
  | b :: s => if b = 0 then none else if b = c then some 0 else (strchr c s).map (· + 1)

lemma strchr_lt {q : ℕ} (h : strchr c s = some q) : q < s.length := by
  induction s generalizing q with
  | nil => cases h
  | cons b s ih =>
    rw [strchr] at h
    split_ifs at h
    · cases h
      exact Nat.succ_pos _
    · obtain ⟨q', hq', rfl⟩ := Option.map_eq_some_iff.mp h
      exact Nat.succ_lt_succ (ih hq')

abbrev newline : UInt8 := ch '\n'

/-- The inner loop of `grep`, from `p` to the end of the buffer: what is printed, and what is left
at the end. -/
def printLines (re p : List UInt8) : List UInt8 × List UInt8 :=
  match _h : strchr newline p with
  | none => ([], p)
  | some q =>
    let (out, left) := printLines re (p.drop (q + 1))
    ((if matchRe re (p.take q) then p.take (q + 1) else []) ++ out, left)
termination_by p.length
decreasing_by
  have := strchr_lt _h
  simp only [length_drop]
  omega

/-- `sizeof(buf)` -/
abbrev bufsize : ℕ := 1024

/-- `grep` on what is left of the input, with the beginning of a line in the buffer. The `i`-th
`read` returns at most `split i + 1` bytes. -/
def grep (re : List UInt8) (split : ℕ → ℕ) (i : ℕ) (buf input : List UInt8) : List UInt8 :=
  let got := input.take (min (bufsize - buf.length - 1) (split i + 1))
  if _h : got = [] then []
  else
    let r := printLines re (buf ++ got)
    r.1 ++ grep re split (i + 1) r.2 (input.drop got.length)
termination_by input.length
decreasing_by
  have hpos : 0 < (input.take (min (bufsize - buf.length - 1) (split i + 1))).length :=
    length_pos_iff.mpr _h
  simp only [length_take, length_drop] at hpos ⊢
  omega

/-- The lines that match, each with its newline. -/
def output (re : List UInt8) (ls : List (List UInt8)) : List UInt8 :=
  ls.flatMap fun l => if matchRe re l then l ++ [newline] else []

lemma strchr_line (h0 : 0 ∉ l) (h : newline ∉ l) : strchr newline (l ++ newline :: s) = some l.length := by
  induction l with
  | nil => rfl
  | cons b l ih =>
    obtain ⟨hb, hl⟩ := ne_and_not_mem_of_not_mem_cons h
    obtain ⟨hb0, hl0⟩ := ne_and_not_mem_of_not_mem_cons h0
    simp [strchr, ih hl0 hl, Ne.symm hb, Ne.symm hb0]

lemma strchr_none (h : newline ∉ s) : strchr newline s = none := by
  induction s with
  | nil => rfl
  | cons b s ih =>
    obtain ⟨hb, hs⟩ := ne_and_not_mem_of_not_mem_cons h
    simp [strchr, ih hs, Ne.symm hb]

lemma printLines_eq (h0 : 0 ∉ s) :
    printLines re s = (output re (lines newline s), rest newline s) := by
  induction s using text_induction newline with
  | hend s h =>
    rw [printLines, lines_of_notMem h, rest_of_notMem h]
    split
    · rfl
    · next q hq => rw [strchr_none h] at hq; cases hq
  | hline l t hl ih =>
    have hl0 : 0 ∉ l := fun hm => h0 (mem_append_left _ hm)
    have ht0 : 0 ∉ t := fun hm => h0 (mem_append_right _ (mem_cons_of_mem _ hm))
    have hline := strchr_line (s := t) hl0 hl
    rw [printLines, lines_line hl, rest_line hl]
    split
    · next hq => rw [hline] at hq; cases hq
    · next q hq =>
      obtain rfl : l.length = q := Option.some.inj (hline.symm.trans hq)
      have ht : (l ++ newline :: t).drop (l.length + 1) = t := by simp
      rw [ht, ih ht0]
      simp [output, take_append, take_of_length_le]

/-- A line that fits in the buffer, with its newline. -/
def Short (l : List UInt8) : Bool := l.length + 1 < bufsize

lemma output_append (ls ms : List (List UInt8)) :
    output re (ls ++ ms) = output re ls ++ output re ms := by simp [output]

/-- What `grep` prints: the lines that match up to the first that does not fit in the buffer. -/
lemma grep_eq (split : ℕ → ℕ) (i : ℕ) (h0 : 0 ∉ s) (h0' : 0 ∉ t) (hs : newline ∉ s)
    (hlen : s.length < bufsize) :
    grep re split i s t = output re ((lines newline (s ++ t)).takeWhile Short) := by
  induction hn : t.length using Nat.strongRecOn generalizing s t i with
  | ind n ih =>
    rw [grep]
    obtain ⟨k, hk⟩ : ∃ k, min (bufsize - s.length - 1) (split i + 1) = k := ⟨_, rfl⟩
    simp only [hk]
    split
    · next hnone =>
      -- the input has come to its end, or there is no room for more of the line
      rcases line_cases newline t with ht | ⟨l, t, hl, rfl⟩
      · rw [lines_of_notMem (by simp [hs, ht])]
        rfl
      · have hfull : ¬ Short (s ++ l) := by
          have : k = 0 := by simpa using hnone
          simp only [Short, length_append, decide_eq_true_eq]
          omega
        rw [← append_assoc, lines_line (by simp [hs, hl]), takeWhile_cons_of_neg hfull]
        rfl
    · next hsome =>
      have hpos := length_pos_iff.mpr hsome
      have hsplit : t.take k ++ t.drop (t.take k).length = t := by
        have hpre : t.take (t.take k).length = t.take k := by simp [take_eq_take_iff]
        have := take_append_drop (t.take k).length t
        rwa [hpre] at this
      have hgot : (t.take k).length ≤ bufsize - s.length - 1 := by
        rw [length_take]
        omega
      have hmem0 : 0 ∉ s ++ t.take k := by
        simp only [mem_append, not_or]
        exact ⟨h0, fun hm => h0' (mem_of_mem_take hm)⟩
      have hfit : ∀ l ∈ lines newline (s ++ t.take k), Short l := by
        intro l hl
        have := length_line_lt hl
        rw [length_append] at this
        simp only [Short, decide_eq_true_eq]
        omega
      rw [printLines_eq hmem0, ih _ _ (i + 1) (fun hm => hmem0 (mem_of_mem_rest hm))
        (fun hm => h0' (mem_of_mem_drop hm)) (notMem_rest _) _ rfl, ← output_append]
      · rw [← takeWhile_append_of_pos hfit, ← lines_append, append_assoc, hsplit]
      · have := length_take_le' k t
        rw [length_drop]
        omega
      · have : (rest newline _).length ≤ _ := length_rest_le (s ++ t.take k)
        rw [length_append] at this
        omega

/-- **`grep` prints the lines that match**, however the input is split, exactly if none of them
comes after, or is, a line that does not fit in the buffer. -/
theorem grep_prints_iff (re : List UInt8) (split : ℕ → ℕ) {input : List UInt8} (h0 : 0 ∉ input) :
    grep re split 0 [] input = output re (lines newline input) ↔
      ∀ l ∈ (lines newline input).dropWhile Short, matchRe re l = false := by
  rw [grep_eq split 0 (not_mem_nil) h0 not_mem_nil (by decide), nil_append]
  nth_rewrite 2 [← takeWhile_append_dropWhile (p := Short) (l := lines newline input)]
  rw [output_append, self_eq_append_right]
  simp [output]

/-- Two lines, read byte by byte, of which one matches. -/
theorem grep_prints_one : (0 : UInt8) ∉ [ch 'a', newline, ch 'b', newline] ∧
    grep [ch 'b'] (fun _ => 0) 0 [] [ch 'a', newline, ch 'b', newline] =
      output [ch 'b'] (lines newline [ch 'a', newline, ch 'b', newline]) :=
  ⟨by decide, (grep_prints_iff _ _ (by decide)).mpr (by decide)⟩

/-- A line that matches and takes up the whole buffer. -/
def longLine : List UInt8 := ch 'a' :: List.replicate 1022 (ch 'a')

/-- With such a line in the buffer `read` is asked for no more, returns 0, and `grep` stops. -/
theorem grep_drops_long_line : 0 ∉ longLine ++ [newline] ∧
    grep [ch 'a'] (fun _ => 0) 0 [] (longLine ++ [newline]) ≠
      output [ch 'a'] (lines newline (longLine ++ [newline])) := by
  have hmem : ∀ b ∈ longLine, b = ch 'a' := fun b hb =>
    (mem_cons.mp hb).elim id eq_of_mem_replicate
  have h0 : 0 ∉ longLine ++ [newline] := by
    simp only [mem_append, mem_singleton, not_or]
    exact ⟨fun h => absurd (hmem 0 h) (by decide), by decide⟩
  have hline : newline ∉ longLine := fun h => absurd (hmem _ h) (by decide)
  have hlong : ¬ Short longLine := by
    simp only [Short, longLine, length_cons, length_replicate]
    decide
  refine ⟨h0, ?_⟩
  rw [grep_eq _ 0 not_mem_nil h0 not_mem_nil (by decide), nil_append,
    lines_line hline, takeWhile_cons_of_neg hlong]
  have hmatch : matchRe [ch 'a'] longLine = true := by
    unfold longLine
    generalize List.replicate 1022 (ch 'a') = text
    rfl
  simp [output, hmatch]

end Xv6.Grep
