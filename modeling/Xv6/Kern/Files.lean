import Xv6.Kern.Cond

/-!
Calls on files and memory keep the invariant of the processes: they change a process only
in fields of its own.
-/

namespace Xv6.Kern

open Lib.Wp Lib.Conc Vm

variable {e : Env} {t : Thread} {l : Ghost} {i j p : ℕ}

variable {β : Type} {Q : β → Ghost → Prop} {f fd pi off : ℕ}

lemma vm_then {α : Type} {x : Vm.Code α} {f : α → Code β}
    (hf : ∀ a, Ok e t (f a) Q l) : Ok e t (vm x >>= f) Q l := then_ok (vm_ok x) hf

lemma doVm_ok {c : Prop} [Decidable c] {x : Vm.Code Unit} :
    Ok e t (doIf c (vm x)) (fun _ l' => l' = l) l := safe_doIf (fun _ => vm_ok x) fun _ => rfl

lemma getProc_then {f : Proc → Code β} (hf : ∀ q, Ok e t (f q) Q l) : Ok e t (getProc j >>= f) Q l :=
  (getProc_ok j).bind_read fun q _ => hf q

lemma filealloc_ok : Ok e t filealloc (fun _ l' => l' = l) l := by
  refine quiet_ok fun s => ?_
  simp only [wp_bind, wp_get]
  split <;> exact ⟨rfl, rfl, rfl, rfl, rfl, rfl, rfl, rfl, rfl, rfl, rfl⟩

lemma filedup_ok : Ok e t (filedup f) (fun _ l' => l' = l) l := by
  refine quiet_ok fun s => ?_
  simp only [wp_bind, wp_get, wp_throwIf, wp_set]
  exact ⟨fun _ => trivial, fun _ => ⟨rfl, rfl, rfl, rfl, rfl, rfl, rfl, rfl, rfl, rfl, rfl⟩⟩

lemma dropRef_ok : Ok e t (dropRef f) (fun _ l' => l' = l) l := by
  refine quiet_ok fun s => ?_
  simp only [wp_bind, wp_get, wp_throwIf]
  refine ⟨fun _ => trivial, fun _ => ?_⟩
  split <;> exact ⟨rfl, rfl, rfl, rfl, rfl, rfl, rfl, rfl, rfl, rfl, rfl⟩

lemma setFile_ok {g : File → File} : Ok e t (setFile f g) (fun _ l' => l' = l) l :=
  quiet_ok fun _ => ⟨rfl, rfl, rfl, rfl, rfl, rfl, rfl, rfl, rfl, rfl, rfl⟩

lemma putInt_ok {v : ℕ} : Ok e t (putInt pi off v) (fun _ l' => l' = l) l := by
  unfold putInt
  exact vm_ok _

lemma getInt_ok : Ok e t (getInt pi off) (fun _ l' => l' = l) l := by
  unfold getInt
  exact vm_then fun _ => rfl

section

variable {pi : ℕ} {w : Bool} (h : Plain l) (hsig : l.wait.sig = none)

include h hsig

lemma closeEnd_ok :
    Ok e t (closeEnd pi w) (fun _ l' => l' = l) l := by
  unfold closeEnd
  split <;> exact then_ok putInt_ok fun _ => wakeup_ok h hsig

lemma pipeclose_ok :
    Ok e t (pipeclose pi w) (fun _ l' => l' = l) l := by
  refine acquire_then fun hk => ?_
  refine then_ok (closeEnd_ok (h.lock _) hsig) fun _ => ?_
  refine then_ok getInt_ok fun r => ?_
  refine then_ok getInt_ok fun w => ?_
  split
  · exact h.unlock_then hk (by simp [hsig]) (vm_ok _)
  · exact h.unlock_ok hk (by simp [hsig])

lemma fileclose_ok : Ok e t (fileclose f) (fun _ l' => l' = l) l := by
  refine then_ok dropRef_ok fun r => ?_
  cases r with
  | none => exact rfl
  | some ff => exact safe_doIf (fun _ => pipeclose_ok h hsig) fun _ => rfl

lemma pipealloc_ok :
    Ok e t pipealloc (fun _ l' => l' = l) l := by
  refine then_ok filealloc_ok fun r => ?_
  cases r with
  | none => exact rfl
  | some f0 =>
    refine then_ok filealloc_ok fun r => ?_
    cases r with
    | none => exact then_ok (fileclose_ok h hsig) fun _ => rfl
    | some f1 =>
      refine vm_then fun pi => ?_
      split
      · exact then_ok (fileclose_ok h hsig) fun _ => then_ok (fileclose_ok h hsig) fun _ => rfl
      · refine then_ok putInt_ok fun _ => ?_
        refine then_ok putInt_ok fun _ => ?_
        refine then_ok putInt_ok fun _ => ?_
        refine then_ok putInt_ok fun _ => ?_
        refine then_ok setFile_ok fun _ => ?_
        exact then_ok setFile_ok fun _ => rfl

end

lemma setFd_ok {f : Option ℕ} (hst : l.run.st = .running) :
    Ok e (.proc i) (setFd i fd f) (fun _ l' => l' = l) l :=
  setProc_own ⟨fun _ => rfl, fun _ => rfl, fun _ => rfl, fun _ => rfl, fun _ => rfl, fun _ => rfl⟩
    (by rw [hst]; simp) (by rw [hst]; simp)

lemma fdalloc_ok (hst : l.run.st = .running) : Ok e (.proc i) (fdalloc f) (fun _ l' => l' = l) l := by
  refine myproc_then ?_
  refine getProc_then fun q => ?_
  split
  · exact then_ok (setFd_ok hst) fun _ => rfl
  · exact rfl

lemma closeBoth_ok {rf wf : ℕ} (h : Plain l) (hsig : l.wait.sig = none) :
    Ok e t (closeBoth rf wf) (fun _ l' => l' = l) l :=
  then_ok (fileclose_ok h hsig) fun _ => then_ok (fileclose_ok h hsig) fun _ => rfl

lemma sysPipe_ok {fdarray : ℕ} (h : Plain l) (hsig : l.wait.sig = none) :
    Ok e (.proc i) (sysPipe fdarray) (fun _ l' => l' = l) l := by
  refine myproc_then ?_
  refine then_ok (pipealloc_ok h hsig) fun r => ?_
  cases r with
  | none => exact rfl
  | some r =>
    obtain ⟨rf, wf⟩ := r
    refine then_ok (fdalloc_ok h.st) fun r => ?_
    cases r with
    | none => exact closeBoth_ok h hsig
    | some fd0 =>
      refine then_ok (fdalloc_ok h.st) fun r => ?_
      cases r with
      | none => exact then_ok (setFd_ok h.st) fun _ => closeBoth_ok h hsig
      | some fd1 =>
        refine getProc_then fun q => ?_
        refine vm_then fun ok0 => ?_
        refine then_ok (r := l) ?_ fun ok1 => ?_
        · split
          · exact vm_ok _
          · exact rfl
        · split
          · exact rfl
          · exact then_ok (setFd_ok h.st) fun _ => then_ok (setFd_ok h.st) fun _ =>
              closeBoth_ok h hsig

lemma argfd_ok : Ok e (.proc i) (argfd fd) (fun _ l' => l' = l) l := by
  refine myproc_then ?_
  exact getProc_then fun q => rfl

lemma sysClose_ok (h : Plain l) (hsig : l.wait.sig = none) :
    Ok e (.proc i) (sysClose fd) (fun _ l' => l' = l) l := by
  refine myproc_then ?_
  refine then_ok argfd_ok fun r => ?_
  cases r with
  | none => exact rfl
  | some f =>
    exact then_ok (setFd_ok h.st) fun _ => then_ok (fileclose_ok h hsig) fun _ => rfl

lemma sysDup_ok (hst : l.run.st = .running) : Ok e (.proc i) (sysDup fd) (fun _ l' => l' = l) l := by
  refine then_ok argfd_ok fun r => ?_
  cases r with
  | none => exact rfl
  | some f =>
    refine then_ok (fdalloc_ok hst) fun r => ?_
    cases r with
    | none => exact rfl
    | some fd => exact then_ok filedup_ok fun _ => rfl

/-! ### Memory -/

section

variable {file : Option (List UInt8)} (hst : l.run.st = .running)

include hst

lemma setOwn_then {F : Proc → Proc} {f : Unit → Code β}
    (hF : Quiet F) (hf : Ok e (.proc i) (f ()) Q l) :
    Ok e (.proc i) (setProc i F >>= f) Q l :=
  then_ok (setProc_own hF (by rw [hst]; simp) (by rw [hst]; simp)) fun _ => hf

lemma growproc_ok {n : ℕ} :
    Ok e (.proc i) (growproc n) (fun _ l' => l' = l) l := by
  refine myproc_then ?_
  refine getProc_then fun q => ?_
  have hF : ∀ sz, Quiet fun q : Proc => { q with sz := sz } :=
    fun sz => ⟨fun _ => rfl, fun _ => rfl, fun _ => rfl, fun _ => rfl, fun _ => rfl, fun _ => rfl⟩
  split
  · refine vm_then fun sz => ?_
    split
    · exact rfl
    · exact setOwn_then hst (hF _) rfl
  · split
    · exact vm_then fun sz => setOwn_then hst (hF _) rfl
    · exact setOwn_then hst (hF _) rfl

lemma commitImage_ok {im : Image} :
    Ok e (.proc i) (commitImage i im) (fun _ l' => l' = l) l := by
  refine getProc_then fun q => ?_
  refine vm_then fun _ => ?_
  refine setOwn_then hst ⟨fun _ => rfl, fun _ => rfl, fun _ => rfl, fun _ => rfl, fun _ => rfl, fun _ => rfl⟩ ?_
  refine setOwn_then hst ⟨fun _ => rfl, fun _ => rfl, fun _ => rfl, fun _ => rfl, fun _ => rfl, fun _ => rfl⟩ ?_
  exact vm_then fun _ => vm_then fun _ => vm_then fun _ => rfl

lemma exec_ok {argv : List ℕ} :
    Ok e (.proc i) (exec file argv) (fun _ l' => l' = l) l := by
  refine myproc_then ?_
  cases file with
  | none => exact rfl
  | some data =>
    refine getProc_then fun q => ?_
    refine vm_then fun r => ?_
    cases r with
    | none => exact rfl
    | some im => exact then_ok (commitImage_ok hst) fun _ => rfl

lemma sysExec_ok {path uargv : ℕ} :
    Ok e (.proc i) (sysExec path uargv file) (fun _ l' => l' = l) l := by
  refine myproc_then ?_
  refine getProc_then fun q => ?_
  refine vm_then fun r => ?_
  split
  · refine vm_then fun a => ?_
    refine then_ok (r := l) ?_ fun ret => ?_
    · split
      · exact exec_ok hst
      · exact rfl
    · exact vm_then fun _ => rfl
  · exact rfl

end

lemma userStore_ok {va : ℕ} {bytes : List UInt8} :
    Ok e (.proc i) (userStore va bytes) (fun _ l' => l' = l) l := by
  refine myproc_then ?_
  refine getProc_then fun q => ?_
  exact vm_then fun _ => rfl

end Xv6.Kern
