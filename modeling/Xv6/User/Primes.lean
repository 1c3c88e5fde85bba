import Mathlib.Data.Finset.Card
import Mathlib.Data.List.Range
import Mathlib.Logic.Function.Basic
import Xv6.Param

/-!
The descriptors of the processes of `user/primes.c`.

The process at depth `k` runs the `k`-th call of `sub_pid`. It was forked by the process before it,
with a copy of its descriptors, and reads pipe `k`.
-/

namespace Xv6.Primes

open Function

/-- An open file: the console, or one end of a pipe. -/
inductive End
  | console
  | rd (pipe : ℕ)
  | wr (pipe : ℕ)

/-- `ofile`, where `none` is a descriptor that is not open. -/
abbrev Fds := ℕ → Option End

def fdalloc (T : Fds) (e : End) : Option (ℕ × Fds) :=
  ((List.range NOFILE).find? fun fd => T fd = none).map fun fd => (fd, update T fd (some e))

/-- `close`, which fails for a number that is no descriptor. -/
def close (T : Fds) (fd : ℕ) : Fds := if fd < NOFILE then update T fd none else T

/-- `pipe`, which gives up the first descriptor if there is no second. -/
def pipe (T : Fds) (k : ℕ) : Option (ℕ × ℕ × Fds) := do
  let (r, T) ← fdalloc T (.rd k)
  let (w, T) ← fdalloc T (.wr k)
  some (r, w, T)

/-- The descriptors that `sh` leaves open. -/
def start : Fds := fun fd => if fd < 3 then some .console else none

/-- The process at depth `k` may call `pipe(sub_pipe)` with the descriptors `T`, and `r` for
`r_pipe[0]`. It has closed `r_pipe[1]`, and whatever the process before it had open is open. -/
inductive AtPipe : ℕ → ℕ → Fds → Prop
  | first {r w : ℕ} {T : Fds} (h : pipe start 1 = some (r, w, T)) : AtPipe 1 r (close T w)
  | next {k r r' w : ℕ} {T T' : Fds} (h : AtPipe k r T) (hp : pipe T (k + 1) = some (r', w, T')) :
      AtPipe (k + 1) r' (close T' w)
  /-- The return value of `pipe` is not checked: `sub_pipe` holds what was in its place. -/
  | junk {k r r' w : ℕ} {T : Fds} (h : AtPipe k r T) (hp : pipe T (k + 1) = none) :
      AtPipe (k + 1) r' (close T w)

/-- Besides 0, 1 and 2 only the read end of the input pipe is open. -/
def OnlyInput (k r : ℕ) (T : Fds) : Prop :=
  T r = some (.rd k) ∧ ∀ fd, T fd ≠ none → fd < 3 ∨ fd = r

/-- How many descriptors are open. -/
def opened (T : Fds) : ℕ := ((Finset.range NOFILE).filter fun fd => T fd ≠ none).card

variable {T T' : Fds} {e : End} {fd k r w : ℕ}

lemma fdalloc_some (h : fdalloc T e = some (fd, T')) :
    fd < NOFILE ∧ T fd = none ∧ T' = update T fd (some e) := by
  obtain ⟨fd', hf, he⟩ := Option.map_eq_some_iff.mp h
  cases he
  exact ⟨List.mem_range.mp (List.mem_of_find?_eq_some hf), by simpa using List.find?_some hf, rfl⟩

lemma opened_set (hlt : fd < NOFILE) (h : T fd = none) :
    opened (update T fd (some e)) = opened T + 1 := by
  have hins : (Finset.range NOFILE).filter (fun i => update T fd (some e) i ≠ none) =
      insert fd ((Finset.range NOFILE).filter fun i => T i ≠ none) := by
    ext i
    by_cases hi : i = fd
    · simp [hi, hlt]
    · simp [hi]
  rw [opened, hins, Finset.card_insert_of_notMem (by simp [h]), opened]

lemma opened_close_le (T : Fds) (fd : ℕ) : opened T ≤ opened (close T fd) + 1 := by
  unfold close
  split
  · have hsub : (Finset.range NOFILE).filter (fun i => T i ≠ none) ⊆
        insert fd ((Finset.range NOFILE).filter fun i => update T fd none i ≠ none) := by
      intro i hi
      by_cases hif : i = fd
      · simp [hif]
      · simpa [hif] using hi
    exact (Finset.card_le_card hsub).trans (Finset.card_insert_le _ _)
  · exact Nat.le_succ _

lemma opened_pipe (h : pipe T k = some (r, w, T')) : opened T' = opened T + 2 := by
  obtain ⟨⟨r', T₁⟩, h₁, h⟩ := Option.bind_eq_some_iff.mp h
  obtain ⟨⟨w', T₂⟩, h₂, h⟩ := Option.bind_eq_some_iff.mp h
  cases h
  obtain ⟨hr, hr', rfl⟩ := fdalloc_some h₁
  obtain ⟨hw, hw', rfl⟩ := fdalloc_some h₂
  rw [opened_set hw hw', opened_set hr hr']

lemma opened_of_fdalloc_none (h : fdalloc T e = none) : opened T = NOFILE := by
  have hall := List.find?_eq_none.mp (Option.map_eq_none_iff.mp h)
  rw [opened, Finset.filter_true_of_mem, Finset.card_range]
  intro fd hfd
  simpa using hall fd (List.mem_range.mpr (Finset.mem_range.mp hfd))

lemma opened_of_pipe_none (h : pipe T k = none) : NOFILE ≤ opened T + 1 := by
  cases h₁ : fdalloc T (.rd k) with
  | none =>
    rw [opened_of_fdalloc_none h₁]
    exact Nat.le_succ _
  | some x =>
    obtain ⟨r, T₁⟩ := x
    obtain ⟨hr, hr', rfl⟩ := fdalloc_some h₁
    cases h₂ : fdalloc (update T r (some (.rd k))) (.wr k) with
    | none =>
      have := opened_of_fdalloc_none h₂
      rw [opened_set hr hr'] at this
      exact this.ge
    | some x => simp [pipe, h₁, h₂] at h

/-- Every level of the recursion has one more descriptor open, up to where `pipe` fails. -/
lemma AtPipe.opened_ge (h : AtPipe k r T) : min (k + 3) 14 ≤ opened T := by
  induction h with
  | @first r w T h =>
    have h1 := opened_pipe h
    have h2 := opened_close_le T w
    have h3 : opened start = 3 := by decide
    omega
  | @next k r r' w T T' h hp ih =>
    have h1 := opened_pipe hp
    have h2 := opened_close_le T' w
    omega
  | @junk k r r' w T h hp ih =>
    have h1 := opened_of_pipe_none hp
    have h2 := opened_close_le T w
    simp only [NOFILE] at h1
    omega

lemma OnlyInput.opened_le (h : OnlyInput k r T) : opened T ≤ 4 := by
  have hsub : (Finset.range NOFILE).filter (fun fd => T fd ≠ none) ⊆ insert r (Finset.range 3) := by
    intro fd hfd
    rcases h.2 fd (Finset.mem_filter.mp hfd).2 with hlt | rfl
    · exact Finset.mem_insert_of_mem (Finset.mem_range.mpr hlt)
    · exact Finset.mem_insert_self ..
  exact (Finset.card_le_card hsub).trans (Finset.card_insert_le _ _)

lemma AtPipe.pos (h : AtPipe k r T) : 1 ≤ k := by cases h <;> omega

lemma pipe_start : pipe start 1 =
    some (3, 4, update (update start 3 (some (.rd 1))) 4 (some (.wr 1))) := rfl

/-- **The stages accumulate descriptors**: only the process at depth 1 has nothing open besides its
input when it calls `pipe`. -/
theorem only_input_iff (h : AtPipe k r T) :
    OnlyInput k r T ∧ (pipe T (k + 1)).isSome ↔ k = 1 := by
  constructor
  · rintro ⟨hc, -⟩
    have h1 := h.opened_ge
    have h2 := hc.opened_le
    have h3 := h.pos
    omega
  · rintro rfl
    cases h with
    | first h =>
      rw [pipe_start] at h
      cases h
      refine ⟨⟨rfl, fun fd hfd => ?_⟩, rfl⟩
      by_contra hn
      obtain ⟨h3, hne⟩ := not_or.mp hn
      rw [close, if_pos (by decide)] at hfd
      simp [update_apply, start, h3, hne] at hfd
    | next h | junk h => exact absurd h.pos (by omega)

theorem only_input_first : ∃ T, AtPipe 1 3 T ∧ OnlyInput 1 3 T ∧ (pipe T 2).isSome := by
  have h : AtPipe 1 3 (close (update (update start 3 (some (.rd 1))) 4 (some (.wr 1))) 4) :=
    .first pipe_start
  exact ⟨_, h, (only_input_iff h).mpr rfl⟩

/-- The process at depth 2 still has what its parent reads, and `pipe` fails at depth 12. -/
theorem descriptors_run_out : (∃ T, AtPipe 2 4 T ∧ T 3 = some (.rd 1)) ∧
    ∃ r T, AtPipe 12 r T ∧ pipe T 13 = none := by
  have h2 := AtPipe.next (.first pipe_start) rfl
  refine ⟨⟨_, h2, rfl⟩, _, _, .next (.next (.next (.next (.next (.next (.next (.next (.next
    (.next h2 rfl) rfl) rfl) rfl) rfl) rfl) rfl) rfl) rfl) rfl, rfl⟩

end Xv6.Primes
