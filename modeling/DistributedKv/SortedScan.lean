import Mathlib

/-!
# Ordered scans of finite maps

An ordered iterator over a key-value store visits the bindings of the keys
within its bounds once each, in increasing key order. `Scans m p l` says
this of a list `l`, for the map `m` and the keys satisfying `p`. The first
and the last binding of a scan belong to the least and the greatest key in
bounds. A strictly sorted association list is a finite map whose filters
are its bounded scans.
-/

set_option autoImplicit false
set_option linter.unusedSectionVars false

namespace DistributedKv.SortedScan

variable {K V : Type} [LT K]

/-- `l` lists the bindings of `m` on the keys satisfying `p`, once each, in
strictly increasing key order. -/
structure Scans (m : K → Option V) (p : K → Prop) (l : List (K × V)) : Prop where
  sorted : l.Pairwise (fun a b => a.1 < b.1)
  mem_iff : ∀ k v, (k, v) ∈ l ↔ m k = some v ∧ p k

variable {m : K → Option V} {p : K → Prop} {l : List (K × V)}

theorem Scans.eq_nil_iff (h : Scans m p l) : l = [] ↔ ∀ k, p k → m k = none := by
  constructor
  · rintro rfl k hk
    cases hm : m k with
    | none => rfl
    | some v => exact absurd ((h.mem_iff k v).mpr ⟨hm, hk⟩) List.not_mem_nil
  · intro hn
    cases l with
    | nil => rfl
    | cons kv l =>
      have hkv := (h.mem_iff kv.1 kv.2).mp List.mem_cons_self
      rw [hn _ hkv.2] at hkv
      cases hkv.1

variable [LE K] [Std.IsLinearOrder K] [Std.LawfulOrderLT K]

theorem Scans.head_le {k : K} {v : V} (h : Scans m p ((k, v)::l)) :
    m k = some v ∧ p k ∧ ∀ k' v', m k' = some v' → p k' → k ≤ k' := by
  have hk := (h.mem_iff k v).mp List.mem_cons_self
  refine ⟨hk.1, hk.2, fun k' v' hm hp => ?_⟩
  rcases List.mem_cons.mp ((h.mem_iff k' v').mpr ⟨hm, hp⟩) with he | hl
  · cases he
    exact Std.le_refl k
  · exact Std.le_of_lt (List.rel_of_pairwise_cons h.sorted hl)

theorem Scans.le_last {k : K} {v : V} {l' : List (K × V)} (h : Scans m p (l'++[(k, v)])) :
    m k = some v ∧ p k ∧ ∀ k' v', m k' = some v' → p k' → k' ≤ k := by
  have hk := (h.mem_iff k v).mp (by simp)
  refine ⟨hk.1, hk.2, fun k' v' hm hp => ?_⟩
  rcases List.mem_append.mp ((h.mem_iff k' v').mpr ⟨hm, hp⟩) with hl | he
  · exact Std.le_of_lt ((List.pairwise_append.mp h.sorted).2.2 _ hl _ List.mem_cons_self)
  · cases List.mem_singleton.mp he
    exact Std.le_refl k

section Lookup

@[simp] theorem lookup_cons_ne [BEq K] [LawfulBEq K] {k k' : K} {v : V} (l : List (K × V)) (h : k ≠ k') :
    ((k', v)::l).lookup k = l.lookup k := by
  have hne : (k == k') = false := by simpa using h
  rw [List.lookup_cons, hne]

theorem lookup_eq_some_iff_mem [BEq K] [LawfulBEq K] {k : K} {v : V} (hs : l.Pairwise (fun a b => a.1 ≠ b.1)) :
    l.lookup k = some v ↔ (k, v) ∈ l := by
  induction l with
  | nil => simp
  | cons kv l ih =>
    obtain ⟨k', v'⟩ := kv
    have hgt : ∀ w, (k', w) ∉ l := by
      intro w hw
      exact List.rel_of_pairwise_cons hs hw rfl
    by_cases hk : k = k'
    · subst hk
      simp only [List.lookup_cons_self, Option.some.injEq, List.mem_cons, Prod.mk.injEq,
        true_and]
      constructor
      · exact fun h => Or.inl h.symm
      · rintro (h | h)
        · exact h.symm
        · exact absurd h (hgt v)
    · rw [lookup_cons_ne l hk, ih hs.of_cons, List.mem_cons]
      simp [hk]

theorem lookup_of_forall_eq [DecidableEq K] [BEq K] [LawfulBEq K] {e : K × V} (h : ∀ e' ∈ l, e' = e) (hne : l ≠ []) (k : K) :
    l.lookup k = if k = e.1 then some e.2 else none := by
  induction l with
  | nil => exact absurd rfl hne
  | cons e' l ih =>
    obtain rfl := h e' List.mem_cons_self
    obtain ⟨k', v'⟩ := e'
    by_cases hk : k = k'
    · subst hk
      simp
    · rw [lookup_cons_ne l hk]
      by_cases hl : l = []
      · subst hl
        simp [hk]
      · simp [ih (fun e he => h e (List.mem_cons_of_mem _ he)) hl, hk]

variable [DecidableEq K]

theorem lookup_foldl_insert (l : List (K × V)) (acc : AList (fun _ : K => V)) (k : K) :
    (l.foldl (fun (acc : AList (fun _ : K => V)) kv => acc.insert kv.1 kv.2) acc).lookup k =
      (l.reverse.lookup k).or (acc.lookup k) := by
  induction l generalizing acc with
  | nil => simp
  | cons kv l ih =>
    obtain ⟨k', v'⟩ := kv
    rw [List.foldl_cons, ih, List.reverse_cons, List.lookup_append]
    by_cases hk : k = k'
    · subst hk
      cases l.reverse.lookup k <;> simp
    · simp [hk, AList.lookup_insert_ne hk]

theorem Scans.lookup_collect {k : K} {v : V} (h : Scans m p l) :
    (l.foldl (fun (acc : AList (fun _ : K => V)) kv => acc.insert kv.1 kv.2) ∅).lookup k = some v ↔
      m k = some v ∧ p k := by
  have hne : l.reverse.Pairwise (fun a b => a.1 ≠ b.1) :=
    List.pairwise_reverse.mpr (h.sorted.imp fun hab => Ne.symm (Std.ne_of_lt hab))
  rw [lookup_foldl_insert, AList.lookup_empty, Option.or_none, lookup_eq_some_iff_mem hne,
    List.mem_reverse, h.mem_iff]

theorem lookup_filter (q : K → Bool) (k : K) (l : List (K × V)) :
    (l.filter (fun kv => q kv.1)).lookup k = if q k then l.lookup k else none := by
  induction l with
  | nil => simp
  | cons kv l ih =>
    obtain ⟨k', v'⟩ := kv
    by_cases hk : k = k'
    · subst hk
      by_cases hq : q k <;> simp [hq, ih]
    · by_cases hq : q k' <;> simp [hq, hk, ih]

end Lookup

structure SortedMap (K V : Type) [LT K] where
  entries : List (K × V)
  sorted : entries.Pairwise (fun a b => a.1 < b.1)

variable [DecidableEq K] [∀ a b : K, Decidable (a < b)]

def insertEntry (k : K) (v : V) : List (K × V) → List (K × V)
  | [] => [(k, v)]
  | (k', v')::l => if k < k' then (k, v)::(k', v')::l else if k = k' then (k, v)::l
      else (k', v')::insertEntry k v l

theorem mem_insertEntry {k : K} {v : V} {a : K × V} (l : List (K × V))
    (h : a ∈ insertEntry k v l) : a = (k, v) ∨ a ∈ l := by
  induction l with
  | nil => simpa [insertEntry] using h
  | cons kv l ih =>
    obtain ⟨k', v'⟩ := kv
    simp only [insertEntry] at h
    split_ifs at h with h1 h2
    · simpa using h
    · rcases List.mem_cons.mp h with h | h
      · exact Or.inl h
      · exact Or.inr (List.mem_cons_of_mem _ h)
    · rcases List.mem_cons.mp h with h | h
      · exact Or.inr (by simp [h])
      · rcases ih h with h | h
        · exact Or.inl h
        · exact Or.inr (List.mem_cons_of_mem _ h)

theorem pairwise_insertEntry (k : K) (v : V) (l : List (K × V))
    (hs : l.Pairwise (fun a b => a.1 < b.1)) :
    (insertEntry k v l).Pairwise (fun a b => a.1 < b.1) := by
  induction l with
  | nil => simp [insertEntry]
  | cons kv l ih =>
    obtain ⟨k', v'⟩ := kv
    have hrest : ∀ a ∈ l, k' < a.1 := fun a ha => List.rel_of_pairwise_cons hs ha
    simp only [insertEntry]
    split_ifs with h1 h2
    · refine List.Pairwise.cons (fun a ha => ?_) hs
      rcases List.mem_cons.mp ha with rfl | ha
      · exact h1
      · exact Std.lt_trans h1 (hrest _ ha)
    · subst h2
      exact List.Pairwise.cons (fun a ha => hrest _ ha) hs.of_cons
    · have hlt : k' < k := Std.lt_of_le_of_ne (Std.not_lt.mp h1) (Ne.symm h2)
      refine List.Pairwise.cons (fun a ha => ?_) (ih hs.of_cons)
      rcases mem_insertEntry l ha with rfl | ha
      · exact hlt
      · exact hrest _ ha

theorem lookup_insertEntry (k k' : K) (v : V) (l : List (K × V)) :
    (insertEntry k v l).lookup k' = if k' = k then some v else l.lookup k' := by
  induction l with
  | nil => by_cases h : k' = k <;> simp [insertEntry, h]
  | cons kv l ih =>
    obtain ⟨k'', v''⟩ := kv
    by_cases h1 : k < k''
    · rw [insertEntry, if_pos h1]
      by_cases h : k' = k <;> simp [h]
    · by_cases h2 : k = k''
      · rw [insertEntry, if_neg h1, if_pos h2]
        subst h2
        by_cases h : k' = k <;> simp [h]
      · rw [insertEntry, if_neg h1, if_neg h2]
        by_cases h : k' = k
        · subst h
          simp [h2, ih]
        · by_cases h' : k' = k''
          · subst h'
            simp [h]
          · simp [h, h', ih]

namespace SortedMap

def empty : SortedMap K V := ⟨[], List.Pairwise.nil⟩

def find (s : SortedMap K V) (k : K) : Option V := s.entries.lookup k

def insert (s : SortedMap K V) (k : K) (v : V) : SortedMap K V :=
  ⟨insertEntry k v s.entries, pairwise_insertEntry k v s.entries s.sorted⟩

def filter (s : SortedMap K V) (q : K → Bool) : SortedMap K V :=
  ⟨s.entries.filter (fun kv => q kv.1), s.sorted.filter _⟩

@[simp] theorem find_empty (k : K) : (empty : SortedMap K V).find k = none := rfl

@[simp] theorem find_insert (s : SortedMap K V) (k k' : K) (v : V) :
    (s.insert k v).find k' = if k' = k then some v else s.find k' :=
  lookup_insertEntry k k' v s.entries

@[simp] theorem find_filter (s : SortedMap K V) (q : K → Bool) (k : K) :
    (s.filter q).find k = if q k then s.find k else none :=
  lookup_filter q k s.entries

theorem scans_filter (s : SortedMap K V) (q : K → Bool) :
    Scans s.find (fun k => q k = true) (s.entries.filter (fun kv => q kv.1)) := by
  refine ⟨s.sorted.filter _, fun k v => ?_⟩
  rw [List.mem_filter, ← lookup_eq_some_iff_mem (s.sorted.imp fun hab => Std.ne_of_lt hab)]
  rfl

end SortedMap

end DistributedKv.SortedScan
