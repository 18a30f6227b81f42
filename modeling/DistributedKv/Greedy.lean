import Mathlib.Data.List.Infix

/-!
# Greedy admission

A list grows by one pass over candidates: each candidate is appended, as the
element `mk p`, unless the list built so far blocks it. When appending never
unblocks a candidate and an admitted candidate blocks itself, the pass only
appends, leaves every candidate blocked, and admits only candidates the
start did not block; a pass over blocked candidates changes nothing.
-/

set_option autoImplicit false

namespace DistributedKv.Greedy

variable {α β : Type} (blocked : List β → α → Prop) [∀ c p, Decidable (blocked c p)] (mk : α → β)

def offer (c : List β) (p : α) : List β := if blocked c p then c else c++[mk p]

/-- Appending never unblocks a candidate. -/
def Monotone : Prop := ∀ c d p, blocked c p → blocked (c++d) p

/-- An admitted candidate is blocked from then on. -/
def SelfBlocking : Prop := ∀ c p, blocked (c++[mk p]) p

variable {blocked mk}

theorem offer_of_blocked {c : List β} {p : α} (h : blocked c p) : offer blocked mk c p = c := if_pos h

theorem offer_of_not_blocked {c : List β} {p : α} (h : ¬blocked c p) : offer blocked mk c p = c++[mk p] :=
  if_neg h

theorem prefix_offer (c : List β) (p : α) : c <+: offer blocked mk c p := by
  by_cases h : blocked c p
  · rw [offer_of_blocked h]
  · rw [offer_of_not_blocked h]
    exact List.prefix_append c _

theorem prefix_foldl (c : List β) (ps : List α) : c <+: ps.foldl (offer blocked mk) c := by
  induction ps generalizing c with
  | nil => exact List.prefix_refl c
  | cons p ps ih => exact (prefix_offer c p).trans (ih _)

omit [∀ c p, Decidable (blocked c p)] in
theorem blocked_mono (hmono : Monotone blocked) {c d : List β} (hcd : c <+: d) {p : α}
    (h : blocked c p) : blocked d p := by
  obtain ⟨e, rfl⟩ := hcd
  exact hmono c e p h

theorem foldl_invariant {I : List β → Prop} (hI : ∀ c p, I c → ¬blocked c p → I (c++[mk p]))
    (ps : List α) (c : List β) (hc : I c) : I (ps.foldl (offer blocked mk) c) := by
  induction ps generalizing c with
  | nil => exact hc
  | cons p ps ih =>
    refine ih _ ?_
    by_cases h : blocked c p
    · rwa [offer_of_blocked h]
    · rw [offer_of_not_blocked h]
      exact hI c p hc h

theorem foldl_of_blocked {c : List β} {ps : List α} (h : ∀ p ∈ ps, blocked c p) :
    ps.foldl (offer blocked mk) c = c := by
  induction ps with
  | nil => rfl
  | cons p ps ih =>
    rw [List.foldl_cons, offer_of_blocked (h p List.mem_cons_self)]
    exact ih fun q hq => h q (List.mem_cons_of_mem p hq)

theorem blocked_foldl (hmono : Monotone blocked) (hself : SelfBlocking blocked mk) (c : List β)
    (ps : List α) : ∀ p ∈ ps, blocked (ps.foldl (offer blocked mk) c) p := by
  induction ps generalizing c with
  | nil => simp
  | cons p ps ih =>
    intro q hq
    rcases List.mem_cons.mp hq with rfl | hq
    · -- `q` is blocked once it is met, and what follows only appends
      have hoffer : blocked (offer blocked mk c q) q := by
        by_cases h : blocked c q
        · rwa [offer_of_blocked h]
        · rw [offer_of_not_blocked h]
          exact hself c q
      exact blocked_mono hmono (prefix_foldl _ ps) hoffer
    · exact ih _ q hq

theorem mem_foldl (hmono : Monotone blocked) {c : List β} {ps : List α} {x : β}
    (hx : x ∈ ps.foldl (offer blocked mk) c) : x ∈ c ∨ ∃ p ∈ ps, ¬blocked c p ∧ x = mk p := by
  induction ps generalizing c with
  | nil => exact Or.inl hx
  | cons p ps ih =>
    by_cases h : blocked c p
    · rw [List.foldl_cons, offer_of_blocked h] at hx
      rcases ih hx with hx | ⟨q, hq, hnq, rfl⟩
      · exact Or.inl hx
      · exact Or.inr ⟨q, List.mem_cons_of_mem p hq, hnq, rfl⟩
    · rw [List.foldl_cons, offer_of_not_blocked h] at hx
      rcases ih hx with hx | ⟨q, hq, hnq, rfl⟩
      · rcases List.mem_append.mp hx with hx | hx
        · exact Or.inl hx
        · exact Or.inr ⟨p, List.mem_cons_self, h, List.mem_singleton.mp hx⟩
      · -- not blocked after appending, so not blocked before
        exact Or.inr ⟨q, List.mem_cons_of_mem p hq, fun hb => hnq (hmono c _ q hb), rfl⟩

theorem foldl_of_refused (good : α → Prop) [DecidablePred good] (c : List β) (ps : List α) :
    ps.foldl (offer (fun c p => ¬good p ∨ blocked c p) mk) c = (ps.filter fun p => good p).foldl (offer blocked mk) c := by
  induction ps generalizing c with
  | nil => rfl
  | cons p ps ih =>
    by_cases hp : good p
    · have hoffer : offer (fun c p => ¬good p ∨ blocked c p) mk c p = offer blocked mk c p := by
        simp only [offer, hp, not_true_eq_false, false_or]
      rw [List.foldl_cons, hoffer, ih]
      simp only [List.filter_cons, hp, decide_true, if_true, List.foldl_cons]
    · rw [List.foldl_cons, offer_of_blocked (Or.inl hp), ih]
      simp only [List.filter_cons, hp, decide_false, Bool.false_eq_true, if_false]

end DistributedKv.Greedy
