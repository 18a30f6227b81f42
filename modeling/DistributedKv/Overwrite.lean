import Mathlib

/-!
# Replaying logs of overwrites

A log of writes to a finite map, each setting one key or erasing it,
replayed oldest first. What a replay leaves at a key is decided by the last
write to that key alone; keys the log never writes keep their value. So
replaying a log over a state that already reflects a sublog of it, a prefix
in particular, gives the state one replay gives.
-/

set_option autoImplicit false

namespace DistributedKv.Overwrite

variable {K V : Type} [DecidableEq K]

def write (m : K → Option V) (w : K × Option V) : K → Option V :=
  Function.update m w.1 w.2

def replay (m : K → Option V) (log : List (K × Option V)) : K → Option V :=
  log.foldl write m

def lastWrite : List (K × Option V) → K → Option (Option V)
  | [], _ => none
  | w::log, k => (lastWrite log k).or (if w.1 = k then some w.2 else none)

@[simp] theorem replay_nil (m : K → Option V) : replay m [] = m := rfl

@[simp] theorem replay_cons (m : K → Option V) (w : K × Option V) (log : List (K × Option V)) :
    replay m (w::log) = replay (write m w) log := rfl

theorem replay_append (m : K → Option V) (l₁ l₂ : List (K × Option V)) :
    replay m (l₁++l₂) = replay (replay m l₁) l₂ := by
  simp [replay, List.foldl_append]

theorem write_apply (m : K → Option V) (w : K × Option V) (k : K) :
    write m w k = if k = w.1 then w.2 else m k := by
  simp [write, Function.update_apply]

theorem replay_apply (m : K → Option V) (log : List (K × Option V)) (k : K) :
    replay m log k = (lastWrite log k).getD (m k) := by
  induction log generalizing m with
  | nil => rfl
  | cons w log ih =>
    rw [replay_cons, ih, lastWrite, write_apply]
    cases lastWrite log k with
    | some x => rfl
    | none =>
      by_cases hk : w.1 = k
      · simp [hk]
      · simp [hk, Ne.symm hk]

theorem lastWrite_isSome_iff (log : List (K × Option V)) (k : K) :
    (lastWrite log k).isSome ↔ ∃ w ∈ log, w.1 = k := by
  induction log with
  | nil => simp [lastWrite]
  | cons w log ih =>
    by_cases hk : w.1 = k <;> simp [lastWrite, ih, hk]

theorem lastWrite_isSome_of_sublist {pre log : List (K × Option V)} (h : pre.Sublist log)
    (k : K) (hk : (lastWrite pre k).isSome) : (lastWrite log k).isSome := by
  obtain ⟨w, hw, hwk⟩ := (lastWrite_isSome_iff pre k).mp hk
  exact (lastWrite_isSome_iff log k).mpr ⟨w, h.subset hw, hwk⟩

theorem replay_replay_of_sublist (m : K → Option V) {pre log : List (K × Option V)}
    (h : pre.Sublist log) : replay (replay m pre) log = replay m log := by
  funext k
  rw [replay_apply (replay m pre), replay_apply m log]
  cases hl : lastWrite log k with
  | some x => rfl
  | none =>
    have hp : lastWrite pre k = none := by
      cases hp : lastWrite pre k with
      | none => rfl
      | some y =>
        have := lastWrite_isSome_of_sublist h k (by simp [hp])
        simp [hl] at this
    rw [Option.getD_none, Option.getD_none, replay_apply, hp, Option.getD_none]

theorem mem_of_lastWrite_eq_some {log : List (K × Option V)} {k : K} {x : Option V}
    (h : lastWrite log k = some x) : (k, x) ∈ log := by
  induction log with
  | nil => cases h
  | cons w log ih =>
    rw [lastWrite] at h
    cases hl : lastWrite log k with
    | some y =>
      rw [hl, Option.some_or] at h
      cases h
      exact List.mem_cons_of_mem w (ih hl)
    | none =>
      rw [hl, Option.none_or] at h
      by_cases hk : w.1 = k
      · rw [if_pos hk] at h
        cases h
        subst hk
        exact List.mem_cons_self
      · rw [if_neg hk] at h
        cases h

theorem replay_eq_some {m : K → Option V} {log : List (K × Option V)} {k : K} {v : V}
    (h : replay m log k = some v) : m k = some v ∨ (k, some v) ∈ log := by
  rw [replay_apply] at h
  cases hl : lastWrite log k with
  | none =>
    rw [hl, Option.getD_none] at h
    exact .inl h
  | some x =>
    rw [hl, Option.getD_some] at h
    subst h
    exact .inr (mem_of_lastWrite_eq_some hl)

theorem replay_replay_of_keys (m : K → Option V) {pre log : List (K × Option V)}
    (h : ∀ w ∈ pre, ∃ w' ∈ log, w'.1 = w.1) : replay (replay m pre) log = replay m log := by
  funext k
  rw [replay_apply (replay m pre), replay_apply m log]
  cases hl : lastWrite log k with
  | some x => rfl
  | none =>
    -- a key the log never writes, so neither does `pre`
    have hp : lastWrite pre k = none := by
      rw [← Option.not_isSome_iff_eq_none, lastWrite_isSome_iff]
      rintro ⟨w, hw, rfl⟩
      obtain ⟨w', hw', hkey⟩ := h w hw
      have hsome := (lastWrite_isSome_iff log w.1).mpr ⟨w', hw', hkey⟩
      rw [hl] at hsome
      cases hsome
    rw [Option.getD_none, Option.getD_none, replay_apply, hp, Option.getD_none]

theorem lookup_foldl_insert (m : AList (fun _ : K => V)) (l : List (K × V)) (k : K) :
    (l.foldl (fun m p => m.insert p.1 p.2) m).lookup k = replay (fun x => m.lookup x) (l.map fun p => (p.1, some p.2)) k := by
  induction l generalizing m with
  | nil => rfl
  | cons p l ih =>
    have hins : (fun x => (m.insert p.1 p.2).lookup x) = write (fun x => m.lookup x) (p.1, some p.2) := by
      funext x
      rw [write_apply]
      by_cases hx : x = p.1
      · rw [if_pos hx, hx, AList.lookup_insert]
      · rw [if_neg hx, AList.lookup_insert_ne hx]
    rw [List.foldl_cons, ih, hins]
    rfl

end DistributedKv.Overwrite
