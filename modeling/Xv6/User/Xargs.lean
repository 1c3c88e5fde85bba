import Mathlib.Data.List.TakeWhile
import Xv6.User.Grep

/-!
`user/xargs.c`. The buffer for the input is a local array that is not initialised: the loop looks
at all of it, whatever the one `read` has stored there.
-/

namespace Xv6.Xargs

open Lib.Text List
open Grep (newline)

abbrev MSGSIZE : ℕ := 16
abbrev MAXARG : ℕ := 32

abbrev Str := List UInt8

variable {xargv argv : List Str} {buf cur input : Str}

/-- `xargv[xargc++] = x;` -/
def push (xargv : List Str) (x : Str) : Except Halt (List Str) :=
  if xargv.length < MAXARG then .ok (xargv ++ [x]) else .error .undefined

/-- A string as `exec` reads it, up to the first NUL. -/
def cstr (s : Str) : Str := s.takeWhile (· ≠ 0)

/-- What the child does: the arguments that it calls `exec` with, where `p` is the text up to the
newline, in whose place it has put a NUL. -/
def child (xargv : List Str) (p : Str) : Except Halt (List Str) := do
  let xargv ← push xargv (cstr p)
  -- `xargv[xargc] = 0;`
  if xargv.length < MAXARG then .ok xargv else .error .undefined

/-- The loop over the buffer, with `p` for the text from the pointer `p` to `buf[i]`. The children
run in copies of the memory. -/
def forLines (xargv : List Str) (p : Str) : Str → Except Halt (List (List Str))
  | [] => .ok []
  | b :: buf =>
    if b = newline then do
      let call ← child xargv p
      let calls ← forLines xargv [] buf
      .ok (call :: calls)
    else forLines xargv (p ++ [b]) buf

/-- The buffer after a `read` that returns at most `split + 1` bytes. -/
def fill (init : Str) (split : ℕ) (input : Str) : Str :=
  let got := input.take (min MSGSIZE (split + 1))
  got ++ init.drop got.length

/-- `main`: the calls of `exec` that the children make, in the order of the forks. -/
def main (argv : List Str) (init : Str) (split : ℕ) (input : Str) :
    Except Halt (List (List Str)) := do
  let buf := fill init split input
  let xargv ← argv.tail.foldlM push []
  forLines xargv [] buf

lemma foldlM_push (l : List Str) (h : xargv.length ≤ MAXARG) : l.foldlM push xargv =
    if xargv.length + l.length ≤ MAXARG then .ok (xargv ++ l) else .error .undefined := by
  induction l generalizing xargv with
  | nil => simp [h, pure, Except.pure]
  | cons x l ih =>
    rw [foldlM_cons, push]
    by_cases hlt : xargv.length < MAXARG
    · have hle : (xargv ++ [x]).length ≤ MAXARG := by rw [length_append]; exact hlt
      rw [if_pos hlt]
      refine (ih hle).trans ?_
      simp [Nat.add_assoc, Nat.add_comm 1]
    · rw [if_neg hlt, if_neg (by simp only [length_cons]; omega)]
      rfl

lemma child_eq (p : Str) : child xargv p =
    if xargv.length + 1 < MAXARG then .ok (xargv ++ [cstr p]) else .error .undefined := by
  unfold child push
  by_cases h : xargv.length + 1 < MAXARG
  · rw [if_pos (Nat.lt_of_succ_lt h), if_pos h]
    simp [bind, Except.bind, h]
  · rw [if_neg h]
    split
    · simp [bind, Except.bind, h]
    · rfl

lemma forLines_eq (hcur : newline ∉ cur) : forLines xargv cur buf =
    if xargv.length + 1 < MAXARG ∨ newline ∉ buf then
      .ok ((lines newline (cur ++ buf)).map fun l => xargv ++ [cstr l])
    else .error .undefined := by
  induction buf generalizing cur with
  | nil => simp [forLines, lines_of_notMem hcur]
  | cons b buf ih =>
    rw [forLines]
    by_cases hb : b = newline
    · subst hb
      rw [if_pos rfl, child_eq, lines_line hcur, ih not_mem_nil]
      by_cases h : xargv.length + 1 < MAXARG
      · simp [h, bind, Except.bind]
      · simp [h, bind, Except.bind]
    · rw [if_neg hb, ih (by simp [hcur, Ne.symm hb])]
      simp [Ne.symm hb]

/-- The array has room for the arguments: all of them, and for every line one more and the null
pointer. -/
def Room (argv : List Str) (buf : Str) : Prop :=
  argv.length ≤ MAXARG + 1 ∧ (argv.length < MAXARG ∨ newline ∉ buf)

instance (argv : List Str) (buf : Str) : Decidable (Room argv buf) :=
  inferInstanceAs (Decidable (_ ∧ _))

lemma main_eq (h : argv ≠ []) (init : Str) (split : ℕ) : main argv init split input =
    if Room argv (fill init split input) then
      .ok ((lines newline (fill init split input)).map fun l => argv.tail ++ [cstr l])
    else .error .undefined := by
  obtain ⟨cmd, args, rfl⟩ := exists_cons_of_ne_nil h
  have hargs := foldlM_push args (show ([] : List Str).length ≤ MAXARG from Nat.zero_le _)
  simp only [length_nil, Nat.zero_add, nil_append] at hargs
  rw [main, tail_cons, hargs]
  by_cases hlen : args.length ≤ MAXARG
  · rw [if_pos hlen]
    refine (forLines_eq not_mem_nil).trans (if_congr ?_ rfl rfl)
    exact ⟨fun h => ⟨Nat.succ_le_succ hlen, h⟩, And.right⟩
  · rw [if_neg hlen, if_neg]
    · rfl
    · rintro ⟨hle, -⟩
      exact hlen (Nat.le_of_succ_le_succ hle)

/-- The calls that should be made: the command with its arguments and a line, for each line. -/
def wanted (argv : List Str) (input : Str) : List (List Str) :=
  (lines newline input).map fun l => argv.tail ++ [l]

lemma cstr_of_notMem {s : Str} (h : 0 ∉ s) : cstr s = s := by
  refine takeWhile_eq_self_iff.mpr fun b hb => ?_
  simp only [decide_eq_true_eq]
  rintro rfl
  exact h hb

lemma count_of_main (h : argv ≠ []) {init : Str} {split : ℕ}
    (hm : main argv init split input = .ok (wanted argv input)) :
    Room argv (fill init split input) ∧
      (fill init split input).count newline = input.count newline := by
  rw [main_eq h] at hm
  split at hm
  · next hroom =>
    refine ⟨hroom, ?_⟩
    have := congrArg List.length (Except.ok.inj hm)
    simpa only [wanted, length_map, length_lines] using this
  · cases hm

/-- **`xargs` runs its command once for each line**, whatever was in the buffer, exactly if the
first `read` fills the buffer, no line ends after it, and there is room for the arguments. -/
theorem xargs_runs_iff {argv : List Str} {input : Str} (hargc : 2 ≤ argv.length) (h0 : 0 ∉ input)
    (split : ℕ) :
    (∀ init : Str, init.length = MSGSIZE → main argv init split input = .ok (wanted argv input)) ↔
      MSGSIZE ≤ split + 1 ∧ MSGSIZE ≤ input.length ∧ newline ∉ input.drop MSGSIZE ∧
        Room argv input := by
  have hne : argv ≠ [] := by
    rintro rfl
    cases hargc
  obtain ⟨got, hgot⟩ : ∃ got, input.take (min MSGSIZE (split + 1)) = got := ⟨_, rfl⟩
  have hfill : ∀ init, fill init split input = got ++ init.drop got.length := by
    intro init
    rw [fill, hgot]
  constructor
  · intro h
    -- with no newline in what was not read, and with nothing else there
    obtain ⟨hroom, hcount⟩ := count_of_main hne (h (List.replicate MSGSIZE 1) (by simp))
    obtain ⟨-, hcount'⟩ := count_of_main hne (h (List.replicate MSGSIZE newline) (by simp))
    rw [hfill, count_append] at hcount hcount'
    have hfull : MSGSIZE ≤ got.length := by
      have hnone : newline ∉ (List.replicate MSGSIZE (1 : UInt8)).drop got.length := fun hm =>
        absurd (eq_of_mem_replicate (mem_of_mem_drop hm)) (by decide)
      rw [count_eq_zero_of_not_mem hnone] at hcount
      rw [drop_replicate, count_replicate_self] at hcount'
      omega
    have hlen : got.length = min (min MSGSIZE (split + 1)) input.length := by
      rw [← hgot, length_take]
    have htake : got = input.take MSGSIZE := by
      rw [← hgot, Nat.min_eq_left (by omega)]
    have hsum : input.count newline = got.count newline + (input.drop MSGSIZE).count newline := by
      rw [htake, ← count_append, take_append_drop]
    have hdrop : newline ∉ input.drop MSGSIZE := by
      refine count_eq_zero.mp ?_
      rw [drop_eq_nil_of_le (by simpa using hfull), count_nil] at hcount
      omega
    refine ⟨by omega, by omega, hdrop, hroom.1, hroom.2.imp_right fun hn hm => ?_⟩
    rw [hfill, mem_append, htake] at hn
    rw [← take_append_drop MSGSIZE input, mem_append] at hm
    exact hm.elim (fun hm => hn (.inl hm)) hdrop
  · rintro ⟨hsplit, hlen, hdrop, hroom⟩ init hinit
    have hbuf : fill init split input = input.take MSGSIZE := by
      rw [hfill, ← hgot, Nat.min_eq_left hsplit, drop_eq_nil_of_le, append_nil]
      rw [length_take, hinit]
      omega
    have hlines : lines newline input = lines newline (input.take MSGSIZE) := by
      have hrest : newline ∉ rest newline (input.take MSGSIZE) ++ input.drop MSGSIZE := by
        simp only [mem_append, not_or]
        exact ⟨notMem_rest _, hdrop⟩
      nth_rewrite 1 [← take_append_drop MSGSIZE input]
      rw [lines_append, lines_of_notMem hrest, append_nil]
    rw [main_eq hne, hbuf, if_pos ⟨hroom.1, hroom.2.imp_right fun hn hm => hn (mem_of_mem_take hm)⟩,
      wanted, hlines]
    refine congrArg _ (map_congr_left fun l hl => ?_)
    rw [cstr_of_notMem fun hm => h0 (mem_of_mem_take (lines_subset hl hm))]

/-- `xargs e`, with two lines that one `read` returns with the byte after them. -/
theorem xargs_runs_two :
    main [[ch 'x'], [ch 'e']] (replicate MSGSIZE 1) 15 ("alpha\nbeta one\n.".toList.map ch) =
      .ok [[[ch 'e'], "alpha".toList.map ch], [[ch 'e'], "beta one".toList.map ch]] :=
  (xargs_runs_iff (by decide) (by decide) 15).mpr (by decide) _ (by decide)

/-- A line of seventeen bytes: its command is not run. -/
theorem xargs_misses_line : ∃ init : Str, init.length = MSGSIZE ∧
    main [[ch 'x'], [ch 'e']] init 16 (List.replicate 17 (ch 'a') ++ [newline]) = .ok [] ∧
    wanted [[ch 'x'], [ch 'e']] (List.replicate 17 (ch 'a') ++ [newline]) =
      [[[ch 'e'], List.replicate 17 (ch 'a')]] :=
  ⟨List.replicate 16 0, by decide, by rfl, by decide⟩

end Xv6.Xargs
