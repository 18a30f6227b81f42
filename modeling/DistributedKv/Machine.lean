import Mathlib.Logic.Basic

/-!
# Deterministic machines whose steps may fail

A machine takes one input at a time and returns its next state and an
optional error, as a Go method with an `error` result does. A run keeps the
state each step leaves, whatever the step returned; `Succeeds` says that every
step of a run returned no error. An invariant that one step preserves holds
after every run, and a relation that every successful step carries to an
abstract machine's step relates the states of every successful run.
-/

set_option autoImplicit false

namespace DistributedKv.Machine

variable {σ α ε τ : Type} (step : σ → α → σ × Option ε)

def run (s : σ) (as : List α) : σ := as.foldl (fun s a => (step s a).1) s

def Succeeds : σ → List α → Prop
  | _, [] => True
  | s, a::as => (step s a).2 = none ∧ Succeeds (step s a).1 as

instance instDecidableSucceeds [DecidableEq ε] : (s : σ) → (as : List α) → Decidable (Succeeds step s as)
  | _, [] => isTrue trivial
  | s, a::as =>
    have := instDecidableSucceeds (step s a).1 as
    inferInstanceAs (Decidable ((step s a).2 = none ∧ Succeeds step (step s a).1 as))

@[simp] theorem run_nil (s : σ) : run step s [] = s := rfl

@[simp] theorem run_cons (s : σ) (a : α) (as : List α) :
    run step s (a::as) = run step (step s a).1 as := rfl

theorem run_append (s : σ) (as bs : List α) : run step s (as++bs) = run step (run step s as) bs := by
  simp [run, List.foldl_append]

@[simp] theorem succeeds_nil (s : σ) : Succeeds step s [] := trivial

@[simp] theorem succeeds_cons (s : σ) (a : α) (as : List α) :
    Succeeds step s (a::as) ↔ (step s a).2 = none ∧ Succeeds step (step s a).1 as := Iff.rfl

theorem succeeds_append (s : σ) (as bs : List α) :
    Succeeds step s (as++bs) ↔ Succeeds step s as ∧ Succeeds step (run step s as) bs := by
  induction as generalizing s with
  | nil => simp
  | cons a as ih => simp [ih, and_assoc]

theorem run_invariant_on {I : σ → Prop} {P : α → Prop} (hstep : ∀ s a, P a → I s → I (step s a).1)
    (as : List α) (s : σ) (hP : ∀ a ∈ as, P a) (hs : I s) : I (run step s as) := by
  induction as generalizing s with
  | nil => exact hs
  | cons a as ih =>
    exact ih _ (fun b hb => hP b (List.mem_cons_of_mem a hb)) (hstep s a (hP a List.mem_cons_self) hs)

theorem run_invariant {I : σ → Prop} (hstep : ∀ s a, I s → I (step s a).1) (as : List α) (s : σ)
    (hs : I s) : I (run step s as) :=
  run_invariant_on step (P := fun _ => True) (fun s a _ => hstep s a) as s (fun _ _ => trivial) hs

theorem run_simulates {R : σ → τ → Prop} {f : τ → α → τ} {P : α → Prop}
    (hstep : ∀ s t a, P a → R s t → (step s a).2 = none → R (step s a).1 (f t a)) (as : List α)
    (s : σ) (t : τ) (hP : ∀ a ∈ as, P a) (hok : Succeeds step s as) (hR : R s t) :
    R (run step s as) (as.foldl f t) := by
  induction as generalizing s t with
  | nil => exact hR
  | cons a as ih =>
    obtain ⟨ha, hrest⟩ := hok
    have hPa : P a := hP a List.mem_cons_self
    exact ih _ _ (fun b hb => hP b (List.mem_cons_of_mem a hb)) hrest (hstep s t a hPa hR ha)

end DistributedKv.Machine
