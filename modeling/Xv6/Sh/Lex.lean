import Xv6.Sh.Program
import Mathlib.Data.List.GetD
import Mathlib.Order.Basic

/-!
The tokens of a line, and what `peek` and `gettoken` say about them.
-/

namespace Xv6.Sh

open Lib.Text (ch Halt)

/-- A symbol, with `+` for `>>`, or the part of the line that is a word. -/
inductive Tok
  | sym (c : UInt8)
  | word (q eq : ℕ)
  deriving DecidableEq

def Got.tok (t : Got) : Tok := if t.ret = ch 'a' then .word t.q t.eq else .sym t.ret

/-- The tokens that `gettoken` gives from `s` on, at most `k` of them. -/
def tokensFrom (mem : ℕ → UInt8) (es : ℕ) : ℕ → ℕ → List Tok
  | 0, _ => []
  | k + 1, s =>
    if (gettoken mem es s).ret = 0 then []
    else (gettoken mem es s).tok :: tokensFrom mem es k (gettoken mem es s).s

def toks (mem : ℕ → UInt8) (es s : ℕ) : List Tok := tokensFrom mem es (es + 1 - s) s

/-- The tokens of a line. -/
def tokens (line : List UInt8) : List Tok := toks (load line) line.length 0

/-- The memory has a string up to `es`. -/
structure Str (mem : ℕ → UInt8) (es : ℕ) : Prop where
  zero : ∀ i, es ≤ i → mem i = 0
  ne_zero : ∀ i, i < es → mem i ≠ 0

lemma str_load {line : List UInt8} (h : 0 ∉ line) : Str (load line) line.length := by
  refine ⟨fun i hi => ?_, fun i hi h0 => h ?_⟩
  · simp [load, List.getD_eq_getElem?_getD, List.getElem?_eq_none hi]
  · rw [load, List.getD_eq_getElem _ _ hi] at h0
    rw [← h0]
    exact List.getElem_mem hi

variable {mem : ℕ → UInt8} {es s : ℕ}

/-! ### Scanning -/

section

variable {p : UInt8 → Bool} {n i : ℕ}

lemma le_scan : s ≤ scan mem p n s := by
  induction n generalizing s with
  | zero => exact Nat.le_refl _
  | succ n ih =>
    unfold scan
    split
    · have := ih (s := s + 1)
      omega
    · exact Nat.le_refl _

lemma scan_le (mem : ℕ → UInt8) (p : UInt8 → Bool) (n s : ℕ) : scan mem p n s ≤ s + n := by
  induction n generalizing s with
  | zero => exact Nat.le_refl _
  | succ n ih =>
    unfold scan
    split
    · have := ih (s + 1)
      omega
    · omega

lemma scan_all (h1 : s ≤ i) (h2 : i < scan mem p n s) : p (mem i) = true := by
  induction n generalizing s with
  | zero =>
    rw [scan] at h2
    omega
  | succ n ih =>
    unfold scan at h2
    split at h2
    · by_cases hi : i = s
      · subst hi
        assumption
      · exact ih (by omega) h2
    · omega

lemma scan_stop (h : scan mem p n s < s + n) : p (mem (scan mem p n s)) = false := by
  induction n generalizing s with
  | zero =>
    rw [scan] at h
    omega
  | succ n ih =>
    unfold scan at h ⊢
    split
    · rename_i hp
      rw [if_pos hp] at h
      exact ih (by omega)
    · rename_i hp
      simpa using hp

lemma scan_of_not (h : p (mem s) = false) : scan mem p n s = s := by
  cases n with
  | zero => rfl
  | succ n => simp [scan, h]

end

lemma le_skip (mem : ℕ → UInt8) (es s : ℕ) : s ≤ skip mem es s := le_scan

lemma skip_le (mem : ℕ → UInt8) (hs : s ≤ es) : skip mem es s ≤ es := by
  have := scan_le mem isWhite (es - s) s
  unfold skip
  omega

lemma Str.scan_end {p : UInt8 → Bool} (h : Str mem es) (hp : p 0 = false) :
    p (mem (scan mem p (es - s) s)) = false := by
  by_cases hlt : scan mem p (es - s) s < s + (es - s)
  · exact scan_stop hlt
  · rw [h.zero _ (by omega), hp]

lemma Str.skip_end (h : Str mem es) : isWhite (mem (skip mem es s)) = false :=
  h.scan_end (by decide)

@[simp] lemma Str.skip_skip (h : Str mem es) : skip mem es (skip mem es s) = skip mem es s :=
  scan_of_not h.skip_end

@[simp] lemma Str.gettoken_skip (h : Str mem es) :
    gettoken mem es (skip mem es s) = gettoken mem es s := by
  unfold gettoken
  rw [h.skip_skip]

/-! ### One token -/

lemma oneToken_cases (mem : ℕ → UInt8) (es s : ℕ) :
    (mem s = 0 ∧ oneToken mem es s = (0, s)) ∨
    (mem s ∈ [ch '|', ch '(', ch ')', ch ';', ch '&', ch '<'] ∧
      oneToken mem es s = (mem s, s + 1)) ∨
    (mem s = ch '>' ∧ mem (s + 1) = ch '>' ∧ oneToken mem es s = (ch '+', s + 2)) ∨
    (mem s = ch '>' ∧ oneToken mem es s = (ch '>', s + 1)) ∨
    (mem s ≠ 0 ∧ mem s ∉ symbols ∧ oneToken mem es s = (ch 'a', scan mem isPlain (es - s) s)) := by
  unfold oneToken
  by_cases h0 : mem s = 0
  · exact .inl ⟨h0, if_pos h0⟩
  rw [if_neg h0]
  by_cases h1 : mem s ∈ [ch '|', ch '(', ch ')', ch ';', ch '&', ch '<']
  · exact .inr (.inl ⟨h1, if_pos h1⟩)
  rw [if_neg h1]
  by_cases h2 : mem s = ch '>'
  · rw [if_pos h2]
    by_cases h3 : mem (s + 1) = ch '>'
    · exact .inr (.inr (.inl ⟨h2, h3, if_pos h3⟩))
    · exact .inr (.inr (.inr (.inl ⟨h2, if_neg h3⟩)))
  · refine .inr (.inr (.inr (.inr ⟨h0, fun hmem => ?_, if_neg h2⟩)))
    simp only [symbols, List.mem_cons, List.not_mem_nil, or_false] at hmem h1
    tauto

/-- The part of the line from `q` to `eq` is a word. -/
structure IsWord (mem : ℕ → UInt8) (es q eq : ℕ) : Prop where
  lt : q < eq
  le : eq ≤ es
  plain : ∀ i, q ≤ i → i < eq → isPlain (mem i) = true
  ends : eq < es → isPlain (mem eq) = false

/-- The character that a token starts with; that of a word is never asked for. -/
def Tok.lead : Tok → UInt8
  | .sym c => if c = ch '+' then ch '>' else c
  | .word _ _ => ch 'a'

lemma Str.lt_of_ne (h : Str mem es) {i : ℕ} (hi : mem i ≠ 0) : i < es := by
  by_contra hlt
  exact hi (h.zero i (by omega))

lemma Str.scan_word (h : Str mem es) (h0 : mem s ≠ 0) (hsym : mem s ∉ symbols)
    (hwhite : isWhite (mem s) = false) : IsWord mem es s (scan mem isPlain (es - s) s) := by
  have hlt := h.lt_of_ne h0
  have hplain : isPlain (mem s) = true := by
    simp only [isWhite] at hwhite
    simp only [isPlain, hwhite, Bool.not_false, Bool.true_and]
    simpa using hsym
  obtain ⟨n, hn⟩ : ∃ n, es - s = n + 1 := ⟨es - s - 1, by omega⟩
  have hle := scan_le mem isPlain (es - s) s
  refine ⟨?_, by omega, fun i h1 h2 => scan_all h1 h2, fun hend => scan_stop (by omega)⟩
  rw [hn, scan, if_pos hplain]
  exact le_scan

/-- What `gettoken` gives where the line goes on. -/
structure Lexed (mem : ℕ → UInt8) (es s : ℕ) (t : Got) : Prop where
  ret_ne : t.ret ≠ 0
  lt : s < t.s
  le : t.s ≤ es
  lead : ∀ c ∈ symbols, (t.tok.lead = c ↔ mem (skip mem es s) = c)
  sym : ∀ c, t.tok = .sym c → t.ret = c
  word : ∀ q eq, t.tok = .word q eq → t.ret = ch 'a' ∧ t.q = q ∧ t.eq = eq ∧ IsWord mem es q eq

lemma Got.tok_of_ne {t : Got} (h : t.ret ≠ ch 'a') : t.tok = .sym t.ret := if_neg h

lemma Got.tok_word {t : Got} (h : t.ret = ch 'a') : t.tok = .word t.q t.eq := if_pos h

lemma lexed_sym {t : Got} {c : UInt8} (hret : t.ret = c) (hc0 : c ≠ 0) (hca : c ≠ ch 'a')
    (hlt : s < t.s) (hle : t.s ≤ es)
    (hlead : mem (skip mem es s) = (Tok.sym c).lead) : Lexed mem es s t := by
  have htok : t.tok = .sym c := by
    rw [Got.tok_of_ne (by rwa [hret]), hret]
  refine ⟨by rwa [hret], hlt, hle, fun d _ => by rw [htok, hlead], fun d hd => ?_,
    fun q eq hw => ?_⟩
  · rw [htok] at hd
    cases hd
    exact hret
  · rw [htok] at hw
    cases hw

lemma Str.lexed (h : Str mem es) (h0 : mem (skip mem es s) ≠ 0) :
    Lexed mem es s (gettoken mem es s) := by
  have hle := le_skip mem es s
  have hlt := h.lt_of_ne h0
  have hend : ∀ e, skip mem es s < e → e ≤ es →
      s < skip mem es e ∧ skip mem es e ≤ es := fun e h1 h2 =>
    ⟨by have := le_skip mem es e; omega, skip_le mem h2⟩
  rcases oneToken_cases mem es (skip mem es s) with
    ⟨hz, -⟩ | ⟨hc, htok⟩ | ⟨hc, hc', htok⟩ | ⟨hc, htok⟩ | ⟨-, hsym, htok⟩
  · exact absurd hz h0
  · obtain ⟨h1, h2⟩ := hend (skip mem es s + 1) (by omega) hlt
    have hne : mem (skip mem es s) ≠ ch 'a' ∧ mem (skip mem es s) ≠ ch '+' := by
      revert hc
      generalize mem (skip mem es s) = c
      simp only [List.mem_cons, List.not_mem_nil, or_false]
      rintro (rfl | rfl | rfl | rfl | rfl | rfl) <;> decide
    refine lexed_sym (by simp [gettoken, htok]) h0 hne.1 ?_ ?_ ?_
    · simpa [gettoken, htok] using h1
    · simpa [gettoken, htok] using h2
    · rw [Tok.lead, if_neg hne.2]
  · have hlt' := h.lt_of_ne (i := skip mem es s + 1) (by rw [hc']; decide)
    obtain ⟨h1, h2⟩ := hend (skip mem es s + 2) (by omega) (by omega)
    refine lexed_sym (c := ch '+') (by simp [gettoken, htok]) (by decide) (by decide) ?_ ?_ ?_
    · simpa [gettoken, htok] using h1
    · simpa [gettoken, htok] using h2
    · rw [hc]
      decide
  · obtain ⟨h1, h2⟩ := hend (skip mem es s + 1) (by omega) hlt
    refine lexed_sym (c := ch '>') (by simp [gettoken, htok]) (by decide) (by decide) ?_ ?_ ?_
    · simpa [gettoken, htok] using h1
    · simpa [gettoken, htok] using h2
    · rw [hc]
      decide
  · have hword := h.scan_word h0 hsym h.skip_end
    obtain ⟨h1, h2⟩ := hend _ hword.lt hword.le
    have hret : (gettoken mem es s).ret = ch 'a' := by simp [gettoken, htok]
    have heq : (gettoken mem es s).eq = scan mem isPlain (es - skip mem es s) (skip mem es s) := by
      simp [gettoken, htok]
    refine ⟨by rw [hret]; decide, ?_, ?_, fun c hc => ?_, fun c hc => ?_, fun q eq hw => ?_⟩
    · simpa [gettoken, htok] using h1
    · simpa [gettoken, htok] using h2
    · rw [Got.tok_word hret, Tok.lead]
      constructor
      · rintro rfl
        exact absurd hc (by decide)
      · rintro rfl
        exact absurd hc hsym
    · rw [Got.tok_word hret] at hc
      cases hc
    · rw [Got.tok_word hret] at hw
      cases hw
      refine ⟨hret, rfl, rfl, ?_⟩
      rw [heq]
      exact hword

lemma Str.ret_zero (h0 : mem (skip mem es s) = 0) : (gettoken mem es s).ret = 0 := by
  simp [gettoken, oneToken, h0]

lemma Str.ret_zero_iff (h : Str mem es) :
    (gettoken mem es s).ret = 0 ↔ mem (skip mem es s) = 0 := by
  constructor
  · intro hret
    by_contra h0
    exact (h.lexed h0).ret_ne hret
  · exact Str.ret_zero

lemma Str.ret_behind (h : Str mem es) (hs : es < s) : (gettoken mem es s).ret = 0 := by
  apply Str.ret_zero
  apply h.zero
  have := le_skip mem es s
  omega

/-! ### All tokens -/

section

variable (h : Str mem es)

include h

lemma Str.tokensFrom_congr {k k' : ℕ} (hk : es + 1 - s ≤ k) (hk' : es + 1 - s ≤ k') :
    tokensFrom mem es k s = tokensFrom mem es k' s := by
  induction k generalizing k' s with
  | zero =>
    cases k' with
    | zero => rfl
    | succ k' => rw [tokensFrom, tokensFrom, if_pos (h.ret_behind (by omega))]
  | succ k ih =>
    cases k' with
    | zero => rw [tokensFrom, tokensFrom, if_pos (h.ret_behind (by omega))]
    | succ k' =>
      rw [tokensFrom, tokensFrom]
      split
      · rfl
      · rename_i hret
        rw [h.ret_zero_iff] at hret
        have hlt := (h.lexed hret).lt
        congr 1
        exact ih (by omega) (by omega)

lemma Str.toks_eq : toks mem es s =
    if (gettoken mem es s).ret = 0 then []
    else (gettoken mem es s).tok :: toks mem es (gettoken mem es s).s := by
  have hmore : toks mem es s = tokensFrom mem es (es + 1 + 1) s :=
    h.tokensFrom_congr (Nat.le_refl _) (by omega)
  rw [hmore, tokensFrom]
  split
  · rfl
  · congr 1
    exact h.tokensFrom_congr (by omega) (Nat.le_refl _)

lemma Str.toks_skip : toks mem es (skip mem es s) = toks mem es s := by
  rw [h.toks_eq, h.gettoken_skip, ← h.toks_eq]

lemma Str.toks_nil : toks mem es s = [] ↔ mem (skip mem es s) = 0 := by
  rw [h.toks_eq, ← h.ret_zero_iff]
  split <;> simpa

lemma Str.skip_eq_of_toks_nil (hs : s ≤ es) (hnil : toks mem es s = []) :
    skip mem es s = es := by
  rw [h.toks_nil] at hnil
  by_contra hne
  have := skip_le mem hs
  exact h.ne_zero _ (by omega) hnil

/-- The next token is the one that `gettoken` gives. -/
structure Next (mem : ℕ → UInt8) (es s : ℕ) (t : Tok) (ts : List Tok) : Prop where
  tok : (gettoken mem es s).tok = t
  lexed : Lexed mem es s (gettoken mem es s)
  rest : toks mem es (gettoken mem es s).s = ts

lemma Str.next {t : Tok} {ts : List Tok} (heq : toks mem es s = t :: ts) :
    Next mem es s t ts := by
  have h0 : mem (skip mem es s) ≠ 0 := by
    intro h0
    rw [h.toks_nil.mpr h0] at heq
    cases heq
  have hret := (h.lexed h0).ret_ne
  rw [h.toks_eq, if_neg hret] at heq
  obtain ⟨h1, h2⟩ := List.cons.inj heq
  exact ⟨h1, h.lexed h0, h2⟩

lemma Str.next_of_ret (hret : (gettoken mem es s).ret ≠ 0) :
    toks mem es s = (gettoken mem es s).tok :: toks mem es (gettoken mem es s).s := by
  rw [h.toks_eq, if_neg hret]

lemma Str.next_word (hret : (gettoken mem es s).ret = ch 'a') :
    toks mem es s = .word (gettoken mem es s).q (gettoken mem es s).eq ::
      toks mem es (gettoken mem es s).s := by
  rw [h.next_of_ret (by rw [hret]; decide), Got.tok_word hret]

lemma Str.gettoken_end (h0 : mem (skip mem es s) = 0) :
    (gettoken mem es s).s = skip mem es s := by
  have hone : oneToken mem es (skip mem es s) = (0, skip mem es s) := by simp [oneToken, h0]
  simp only [gettoken, hone, h.skip_skip]

lemma Str.gettoken_le (hs : s ≤ es) : (gettoken mem es s).s ≤ es := by
  by_cases h0 : mem (skip mem es s) = 0
  · rw [h.gettoken_end h0]
    exact skip_le mem hs
  · exact (h.lexed h0).le

lemma Str.toks_end (hret : (gettoken mem es s).ret = 0) :
    toks mem es (gettoken mem es s).s = toks mem es s := by
  rw [h.ret_zero_iff] at hret
  rw [h.gettoken_end hret, h.toks_skip]

end

/-! ### `peek` -/

@[simp] lemma peek_snd {l : List UInt8} : (peek mem es s l).2 = skip mem es s := rfl

lemma Str.peek_nil (h : Str mem es) {l : List UInt8} (hnil : toks mem es s = []) :
    (peek mem es s l).1 = false := by
  rw [h.toks_nil] at hnil
  simp [peek, hnil]

lemma Str.peek_cons (h : Str mem es) {l : List UInt8} (hl : l ⊆ symbols) {t : Tok}
    {ts : List Tok} (heq : toks mem es s = t :: ts) :
    (peek mem es s l).1 = decide (t.lead ∈ l) := by
  obtain ⟨htok, hlex, -⟩ := h.next heq
  have h0 : mem (skip mem es s) ≠ 0 := by
    intro h0
    rw [h.toks_nil.mpr h0] at heq
    cases heq
  have hiff : mem (skip mem es s) ∈ l ↔ t.lead ∈ l := by
    constructor
    · intro hmem
      have hlead := (hlex.lead _ (hl hmem)).mpr rfl
      rw [← htok, hlead]
      exact hmem
    · intro hmem
      rw [← htok] at hmem
      have hlead := (hlex.lead _ (hl hmem)).mp rfl
      rw [hlead]
      exact hmem
  simp [peek, h0, hiff]

lemma Str.peek_true (h : Str mem es) {l : List UInt8} (hl : l ⊆ symbols)
    (hpeek : (peek mem es s l).1 = true) :
    ∃ t ts, toks mem es s = t :: ts ∧ t.lead ∈ l := by
  cases htoks : toks mem es s with
  | nil =>
    rw [h.peek_nil htoks] at hpeek
    cases hpeek
  | cons t ts =>
    rw [h.peek_cons hl htoks, decide_eq_true_eq] at hpeek
    exact ⟨t, ts, rfl, hpeek⟩

end Xv6.Sh
