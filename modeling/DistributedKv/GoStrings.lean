import Mathlib.Data.List.Basic

/-!
# `strings.Cut`

Go's `strings.Cut(s, sep)` for a separator of one element: what stands
before its first occurrence, what follows it, and whether it occurs; `s`,
nothing and `false` when it does not. Cutting `before ++ sep :: after`, with
no `sep` in `before`, gives back `before` and `after`.
-/

set_option autoImplicit false

namespace DistributedKv.GoStrings

variable {α : Type} [DecidableEq α]

def cut (sep : α) : List α → List α × List α × Bool
  | [] => ([], [], false)
  | c::s =>
    if c = sep then ([], s, true)
    else
      let (before, after, found) := cut sep s
      (c::before, after, found)

theorem cut_append (sep : α) {before : List α} (hb : sep ∉ before) (after : List α) :
    cut sep (before++sep::after) = (before, after, true) := by
  induction before with
  | nil => simp [cut]
  | cons c before ih =>
    have hc : c ≠ sep := fun h => hb (h ▸ List.mem_cons_self)
    simp only [List.cons_append, cut, if_neg hc, ih (fun h => hb (List.mem_cons_of_mem c h))]

theorem cut_of_not_mem {sep : α} {s : List α} (h : sep ∉ s) : cut sep s = (s, [], false) := by
  induction s with
  | nil => rfl
  | cons c s ih =>
    have hc : c ≠ sep := fun he => h (he ▸ List.mem_cons_self)
    simp only [cut, if_neg hc, ih (fun hs => h (List.mem_cons_of_mem c hs))]

theorem cut_of_mem {sep : α} {s : List α} (h : sep ∈ s) :
    ∃ before after, sep ∉ before ∧ s = before++sep::after ∧ cut sep s = (before, after, true) := by
  induction s with
  | nil => simp at h
  | cons c s ih =>
    by_cases hc : c = sep
    · exact ⟨[], s, List.not_mem_nil, by rw [hc]; rfl, by simp [cut, hc]⟩
    · obtain ⟨before, after, hb, rfl, hcut⟩ := ih ((List.mem_cons.mp h).resolve_left (Ne.symm hc))
      refine ⟨c::before, after, ?_, rfl, ?_⟩
      · exact fun hm => (List.mem_cons.mp hm).elim (fun he => hc he.symm) hb
      · simp only [cut, if_neg hc, hcut]

end DistributedKv.GoStrings
