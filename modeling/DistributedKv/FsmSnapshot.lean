import DistributedKv.Fsm
import DistributedKv.CsvStream

/-!
# Snapshot and restore

`Persist` writes the snapshot's bindings as two-field CSV records, and
`Restore` clears the storer and sets each record it reads back. Through a
sink that keeps its bytes, the two give the storer every binding back with
its key and value passed through `crlfToLf`, a later binding of the ranging
order winning where two keys come back equal. So the storer comes back as it
was when no key and no value holds `\r\n`, and a key that holds one comes
back as another key.

On a stream that `Persist` did not write, `Restore` reads `record[1]` of
whatever the reader returns: it panics exactly when the first record has
fewer than two fields, the reader giving every record the count of the
first, and when it returns nil the storer holds the records' first two
fields as keys and values.
-/

set_option autoImplicit false

namespace DistributedKv.Fsm

open DistributedKv.BigEndian DistributedKv.SortedScan DistributedKv.Types DistributedKv.PebbleDB

variable {σ : Type}

theorem GoMap.mem_pairs {m : GoMap} {k v : Bytes} : (k, v) ∈ GoMap.pairs m ↔ m.lookup k = some v := by
  constructor
  · intro h
    obtain ⟨⟨a, b⟩, he, hab⟩ := List.mem_map.mp h
    simp only [Prod.mk.injEq] at hab
    obtain ⟨rfl, rfl⟩ := hab
    exact AList.mem_lookup_iff.mpr he
  · intro h
    exact List.mem_map.mpr ⟨⟨k, v⟩, AList.mem_lookup_iff.mp h, rfl⟩

theorem GoMap.pairs_pairwise (m : GoMap) : (GoMap.pairs m).Pairwise (fun a b => a.1 ≠ b.1) := by
  have h := m.nodupKeys
  unfold List.NodupKeys List.keys at h
  rw [List.Nodup, List.pairwise_map] at h
  rw [GoMap.pairs, List.pairwise_map]
  exact h

theorem persist_bufferSink (order : List (Bytes × Bytes)) (k : Bytes) :
    persist bufferSink order k = (k++order.flatMap fun kv => Csv.write [kv.1, kv.2], none) := rfl

def recordPair : List Bytes → Option (Bytes × Bytes)
  | key::value::_ => some (key, value)
  | _ => none

section Restore

variable {st : Storer σ} (hst : st.Lawful)
include hst

theorem restore_eq_restoreLoop (s : σ) (input : Bytes) :
    ∃ s0, (∀ x, st.contents s0 x = none) ∧
      restore st s input = restoreLoop st s0 (Csv.readAll input).2 (Csv.readAll input).1 := by
  obtain ⟨s0, hs0, hc0⟩ := hst.clear_eq s
  exact ⟨s0, hc0, by simp only [restore, hs0]⟩

theorem restoreLoop_spec (s : σ) (readErr : Option Csv.ParseErr) (recs : List (List Bytes))
    (h : ∀ r ∈ recs, 2 ≤ r.length) :
    (restoreLoop st s readErr recs).2 = readErr.map Error.csv ∧
      ∀ x, st.contents (restoreLoop st s readErr recs).1 x =
        ((recs.filterMap recordPair).reverse.lookup x).or (st.contents s x) := by
  induction recs generalizing s with
  | nil => cases readErr <;> simp [restoreLoop]
  | cons r recs ih =>
    obtain ⟨k, v, t, rfl⟩ : ∃ k v t, r = k::v::t := by
      have hr := h r List.mem_cons_self
      rcases r with _ | ⟨k, _ | ⟨v, t⟩⟩
      · simp at hr
      · simp at hr
      · exact ⟨k, v, t, rfl⟩
    obtain ⟨s1, hs1, hc⟩ := hst.set_eq s k v
    obtain ⟨h1, h2⟩ := ih s1 (fun r hr => h r (List.mem_cons_of_mem _ hr))
    simp only [restoreLoop, hs1, List.filterMap_cons, recordPair]
    refine ⟨h1, fun x => ?_⟩
    rw [h2, hc, List.reverse_cons, List.lookup_append, Option.or_assoc]
    by_cases hx : x = k
    · subst hx
      simp
    · simp [hx]

theorem restoreLoop_short (s : σ) (readErr : Option Csv.ParseErr) (recs : List (List Bytes))
    (h : ∃ r ∈ recs, r.length < 2) :
    (restoreLoop st s readErr recs).2 = some (.panic (.new "index out of range")) := by
  induction recs generalizing s with
  | nil => simp at h
  | cons r recs ih =>
    rcases r with _ | ⟨k, _ | ⟨v, t⟩⟩
    · rfl
    · rfl
    · obtain ⟨s1, hs1, -⟩ := hst.set_eq s k v
      -- the short record is a later one
      have hrest : ∃ r ∈ recs, r.length < 2 := by
        obtain ⟨r', hr', hlen⟩ := h
        rcases List.mem_cons.mp hr' with rfl | hr'
        · simp at hlen
        · exact ⟨r', hr', hlen⟩
      simp only [restoreLoop, hs1]
      exact ih s1 hrest

theorem restoreLoop_result (s : σ) (readErr : Option Csv.ParseErr) (recs : List (List Bytes)) :
    (restoreLoop st s readErr recs).2 =
      if ∃ r ∈ recs, r.length < 2 then some (.panic (.new "index out of range")) else readErr.map Error.csv := by
  split_ifs with hshort
  · exact restoreLoop_short hst s readErr recs hshort
  · have hlong : ∀ r ∈ recs, 2 ≤ r.length := by
      push Not at hshort
      exact hshort
    exact (restoreLoop_spec hst s readErr recs hlong).1

theorem restoreLoop_pairs (s : σ) (pairs : List (Bytes × Bytes)) :
    (restoreLoop st s none (pairs.map fun kv => [kv.1, kv.2])).2 = none ∧
      ∀ x, st.contents (restoreLoop st s none (pairs.map fun kv => [kv.1, kv.2])).1 x =
        (pairs.reverse.lookup x).or (st.contents s x) := by
  have hpairs : (pairs.map fun kv => [kv.1, kv.2]).filterMap recordPair = pairs := by
    simp [List.filterMap_map, Function.comp_def, recordPair]
  have hlen : ∀ r ∈ pairs.map (fun kv => [kv.1, kv.2]), 2 ≤ r.length := by
    intro r hr
    obtain ⟨kv, -, rfl⟩ := List.mem_map.mp hr
    simp
  have h := restoreLoop_spec hst s none _ hlen
  rw [hpairs] at h
  exact h

theorem restore_write_pairs (s : σ) (pairs : List (Bytes × Bytes)) :
    (restore st s (pairs.flatMap fun kv => Csv.write [kv.1, kv.2])).2 = none ∧
      ∀ x, st.contents (restore st s (pairs.flatMap fun kv => Csv.write [kv.1, kv.2])).1 x =
        (pairs.map fun kv => (Csv.crlfToLf kv.1, Csv.crlfToLf kv.2)).reverse.lookup x := by
  obtain ⟨s0, hc0, hr⟩ := restore_eq_restoreLoop hst s (pairs.flatMap fun kv => Csv.write [kv.1, kv.2])
  have hloop := restoreLoop_pairs hst s0 (pairs.map fun kv => (Csv.crlfToLf kv.1, Csv.crlfToLf kv.2))
  simp only [List.map_map, Function.comp_def] at hloop
  simp only [hr, Csv.readAll_write_pairs]
  refine ⟨hloop.1, fun x => ?_⟩
  rw [hloop.2, hc0, Option.or_none]

theorem persist_restore_contents (order : List (Bytes × Bytes)) (s' : σ) :
    (persist bufferSink order []).2 = none ∧
      (restore st s' (persist bufferSink order []).1).2 = none ∧
      ∀ x, st.contents (restore st s' (persist bufferSink order []).1).1 x =
        (order.map fun kv => (Csv.crlfToLf kv.1, Csv.crlfToLf kv.2)).reverse.lookup x := by
  rw [persist_bufferSink, List.nil_append]
  exact ⟨rfl, restore_write_pairs hst s' order⟩

theorem mem_order_iff {s : σ} {order : List (Bytes × Bytes)} (horder : order.Perm (GoMap.pairs (snapshot st s)))
    (k v : Bytes) : (k, v) ∈ order ↔ st.contents s k = some v := by
  rw [horder.mem_iff, GoMap.mem_pairs, snapshot, hst.dump_lookup]

theorem persist_restore_eq {s : σ} (hcrlf : ∀ k v, st.contents s k = some v → ¬[13, 10] <:+: k ∧ ¬[13, 10] <:+: v)
    {order : List (Bytes × Bytes)} (horder : order.Perm (GoMap.pairs (snapshot st s))) (s' : σ) :
    (persist bufferSink order []).2 = none ∧ (restore st s' (persist bufferSink order []).1).2 = none ∧
      ∀ x, st.contents (restore st s' (persist bufferSink order []).1).1 x = st.contents s x := by
  obtain ⟨h1, h2, h3⟩ := persist_restore_contents hst order s'
  -- every binding reads back as itself
  have hid : (order.map fun kv => (Csv.crlfToLf kv.1, Csv.crlfToLf kv.2)) = order := by
    refine List.map_congr_left (fun kv hkv => ?_) |>.trans (List.map_id order)
    obtain ⟨hk, hv⟩ := hcrlf kv.1 kv.2 ((mem_order_iff hst horder kv.1 kv.2).mp hkv)
    rw [Csv.crlfToLf_of_not_infix hk, Csv.crlfToLf_of_not_infix hv]
    rfl
  have hpw : order.reverse.Pairwise (fun a b => a.1 ≠ b.1) := by
    have h := (horder.pairwise_iff (fun h => Ne.symm h)).mpr (GoMap.pairs_pairwise (snapshot st s))
    exact List.pairwise_reverse.mpr (h.imp Ne.symm)
  refine ⟨h1, h2, fun x => Option.ext fun w => ?_⟩
  rw [h3, hid, lookup_eq_some_iff_mem hpw, List.mem_reverse, mem_order_iff hst horder]

end Restore

/-- A storer holding one binding whose key holds `\r\n` does not get it back
through `Snapshot`, `Persist` into a sink that keeps its bytes, and
`Restore` of those bytes: `Restore` returns nil, the key is gone, and the
value stands under the key with `\n` in place of each `\r\n`. -/
theorem snapshot_restore_loses_crlf_key {st : Storer σ} (hst : st.Lawful) (s s' : σ) (k v : Bytes)
    (hk : [13, 10] <:+: k) (hs : ∀ x, st.contents s x = if x = k then some v else none)
    (order : List (Bytes × Bytes)) (horder : order.Perm (GoMap.pairs (snapshot st s))) :
    (restore st s' (persist bufferSink order []).1).2 = none ∧
      st.contents (restore st s' (persist bufferSink order []).1).1 k = none ∧
      st.contents (restore st s' (persist bufferSink order []).1).1 (Csv.crlfToLf k) = some (Csv.crlfToLf v) := by
  obtain ⟨-, h2, h3⟩ := persist_restore_contents hst order s'
  -- the order ranges over the one binding `(k, v)`
  have hmem : ∀ kv ∈ order, kv = (k, v) := by
    rintro ⟨a, b⟩ h
    have hab := (mem_order_iff hst horder a b).mp h
    rw [hs] at hab
    split_ifs at hab with ha
    cases hab
    rw [ha]
  have hin : (k, v) ∈ order := (mem_order_iff hst horder k v).mpr (by rw [hs, if_pos rfl])
  have hread : ∀ e ∈ (order.map fun kv => (Csv.crlfToLf kv.1, Csv.crlfToLf kv.2)).reverse,
      e = (Csv.crlfToLf k, Csv.crlfToLf v) := by
    intro e he
    obtain ⟨kv, hkv, rfl⟩ := List.mem_map.mp (List.mem_reverse.mp he)
    rw [hmem kv hkv]
  have hne : (order.map fun kv => (Csv.crlfToLf kv.1, Csv.crlfToLf kv.2)).reverse ≠ [] :=
    List.ne_nil_of_mem (List.mem_reverse.mpr (List.mem_map_of_mem hin))
  refine ⟨h2, ?_, ?_⟩
  · rw [h3, lookup_of_forall_eq hread hne, if_neg (Csv.crlfToLf_ne_of_infix hk).symm]
  · rw [h3, lookup_of_forall_eq hread hne, if_pos rfl]

theorem snapshot_restore_loses_crlf_key_sorted :
    (persistedStorer sortedPebble).Lawful ∧ [13, 10] <:+: ([97, 13, 10, 98] : Bytes) ∧
      (∀ x, (persistedStorer sortedPebble).contents
          ((persistedStorer sortedPebble).set sortedPebble.empty [97, 13, 10, 98] [118]).1 x =
        if x = [97, 13, 10, 98] then some [118] else none) ∧
      let st := persistedStorer sortedPebble
      let s := (st.set sortedPebble.empty [97, 13, 10, 98] [118]).1
      let s'' := (restore st sortedPebble.empty (persist bufferSink (GoMap.pairs (snapshot st s)) []).1)
      s''.2 = none ∧ st.contents s''.1 [97, 13, 10, 98] = none ∧
        st.contents s''.1 (Csv.crlfToLf [97, 13, 10, 98]) = some (Csv.crlfToLf [118]) := by
  have hst := sortedPebble_persistedStorer_lawful
  have hk : [13, 10] <:+: ([97, 13, 10, 98] : Bytes) := by decide
  have hs : ∀ x, (persistedStorer sortedPebble).contents
      ((persistedStorer sortedPebble).set sortedPebble.empty [97, 13, 10, 98] [118]).1 x =
        if x = [97, 13, 10, 98] then some [118] else none := by
    intro x
    rw [hst.contents_set]
    split_ifs
    · rfl
    · exact persistedStorer_contents_empty sortedPebble_lawful x
  exact ⟨hst, hk, hs, snapshot_restore_loses_crlf_key hst _ sortedPebble.empty _ _ hk hs _ (List.Perm.refl _)⟩

/-- When no key and no value the storer holds has `\r\n`, `Snapshot`,
`Persist` into a sink that keeps its bytes, and `Restore` of those bytes on
a storer in any state succeed and give back exactly the bindings the storer
held. -/
theorem snapshot_restore_round_trip {st : Storer σ} (hst : st.Lawful) (s s' : σ)
    (hcrlf : ∀ k v, st.contents s k = some v → ¬[13, 10] <:+: k ∧ ¬[13, 10] <:+: v)
    (order : List (Bytes × Bytes)) (horder : order.Perm (GoMap.pairs (snapshot st s))) :
    (persist bufferSink order []).2 = none ∧ (restore st s' (persist bufferSink order []).1).2 = none ∧
      ∀ x, st.contents (restore st s' (persist bufferSink order []).1).1 x = st.contents s x :=
  persist_restore_eq hst hcrlf horder s'

theorem snapshot_restore_round_trip_sorted :
    (persistedStorer sortedPebble).Lawful ∧
      (∀ k v, (persistedStorer sortedPebble).contents
          ((persistedStorer sortedPebble).set sortedPebble.empty [97, 13, 98] [44, 34, 32]).1 k = some v →
        ¬[13, 10] <:+: k ∧ ¬[13, 10] <:+: v) ∧
      let st := persistedStorer sortedPebble
      let s := (st.set sortedPebble.empty [97, 13, 98] [44, 34, 32]).1
      let order := GoMap.pairs (snapshot st s)
      (persist bufferSink order []).2 = none ∧
        (restore st sortedPebble.empty (persist bufferSink order []).1).2 = none ∧
        ∀ x, st.contents (restore st sortedPebble.empty (persist bufferSink order []).1).1 x = st.contents s x := by
  have hst := sortedPebble_persistedStorer_lawful
  have hcrlf : ∀ k v, (persistedStorer sortedPebble).contents
      ((persistedStorer sortedPebble).set sortedPebble.empty [97, 13, 98] [44, 34, 32]).1 k = some v →
        ¬[13, 10] <:+: k ∧ ¬[13, 10] <:+: v := by
    intro k v h
    rw [hst.contents_set] at h
    split_ifs at h with hk
    · cases h
      subst hk
      decide
    · exact absurd (h.symm.trans (persistedStorer_contents_empty sortedPebble_lawful k)) (by simp)
  exact ⟨hst, hcrlf, snapshot_restore_round_trip hst _ sortedPebble.empty hcrlf _ (List.Perm.refl _)⟩

/-- On any stream from which the reader returns a record of fewer than two
fields, `Restore` panics on `record[1]`. -/
theorem restore_short_record_panics {st : Storer σ} (hst : st.Lawful) (s : σ) (input : Bytes)
    (h : ∃ r ∈ (Csv.readAll input).1, r.length < 2) :
    (restore st s input).2 = some (.panic (.new "index out of range")) := by
  obtain ⟨s0, -, hr⟩ := restore_eq_restoreLoop hst s input
  rw [hr]
  exact restoreLoop_short hst s0 _ _ h

theorem restore_short_record_panics_sorted :
    (persistedStorer sortedPebble).Lawful ∧ (∃ r ∈ (Csv.readAll [97, 10]).1, r.length < 2) ∧
      (restore (persistedStorer sortedPebble) sortedPebble.empty [97, 10]).2 =
        some (.panic (.new "index out of range")) := by
  have hst := sortedPebble_persistedStorer_lawful
  have h : ∃ r ∈ (Csv.readAll [97, 10]).1, r.length < 2 := by decide
  exact ⟨hst, h, restore_short_record_panics hst _ _ h⟩

/-- Whenever `Restore` returns nil, from any state and on any stream, the
storer holds exactly the first two fields of each record read as a key and
its value, a later record of a key winning. -/
theorem restore_nil_contents {st : Storer σ} (hst : st.Lawful) (s : σ) (input : Bytes)
    (h : (restore st s input).2 = none) (x : Bytes) :
    st.contents (restore st s input).1 x = ((Csv.readAll input).1.filterMap recordPair).reverse.lookup x := by
  obtain ⟨s0, hs0, hr⟩ := restore_eq_restoreLoop hst s input
  rw [hr] at h ⊢
  -- a short record would have panicked
  have hlong : ∀ r ∈ (Csv.readAll input).1, 2 ≤ r.length := by
    rw [restoreLoop_result hst] at h
    by_cases hshort : ∃ r ∈ (Csv.readAll input).1, r.length < 2
    · rw [if_pos hshort] at h
      cases h
    · push Not at hshort
      exact hshort
  rw [(restoreLoop_spec hst s0 _ _ hlong).2, hs0, Option.or_none]

theorem restore_nil_contents_sorted :
    (persistedStorer sortedPebble).Lawful ∧
      let st := persistedStorer sortedPebble
      let input := [([107], [118])].flatMap fun kv => Csv.write [kv.1, kv.2]
      (restore st sortedPebble.empty input).2 = none ∧
        ∀ x, st.contents (restore st sortedPebble.empty input).1 x =
          ((Csv.readAll input).1.filterMap recordPair).reverse.lookup x := by
  have hst := sortedPebble_persistedStorer_lawful
  have h := (restore_write_pairs hst sortedPebble.empty [([107], [118])]).1
  exact ⟨hst, h, restore_nil_contents hst _ _ h⟩

/-- On any stream, `Restore` panics on `record[1]` exactly when the first
record read has fewer than two fields, since the reader gives every record
the field count of the first; otherwise it returns the reader's error, nil
when the whole stream was read. -/
theorem restore_outcome {st : Storer σ} (hst : st.Lawful) (s : σ) (input : Bytes) :
    ((restore st s input).2 = some (.panic (.new "index out of range")) ↔
      ∃ r rs, (Csv.readAll input).1 = r::rs ∧ r.length < 2) ∧
    ((∀ r rs, (Csv.readAll input).1 = r::rs → 2 ≤ r.length) →
      (restore st s input).2 = (Csv.readAll input).2.map Error.csv) := by
  obtain ⟨s0, -, hr⟩ := restore_eq_restoreLoop hst s input
  have hiff := Csv.readAll_exists_length_iff input (· < 2)
  rw [hr, restoreLoop_result hst]
  constructor
  · by_cases hshort : ∃ r ∈ (Csv.readAll input).1, r.length < 2
    · rw [if_pos hshort]
      exact iff_of_true rfl (hiff.mp hshort)
    · rw [if_neg hshort]
      -- the reader's error is never the panic
      refine iff_of_false ?_ (fun hfirst => hshort (hiff.mpr hfirst))
      cases (Csv.readAll input).2 <;> simp
  · intro hfirst
    refine if_neg ?_
    rw [hiff]
    rintro ⟨r, rs, hrs, hlt⟩
    have := hfirst r rs hrs
    omega

theorem restore_outcome_sorted :
    (persistedStorer sortedPebble).Lawful ∧
      (((restore (persistedStorer sortedPebble) sortedPebble.empty [97, 10]).2 =
          some (.panic (.new "index out of range")) ↔
        ∃ r rs, (Csv.readAll [97, 10]).1 = r::rs ∧ r.length < 2) ∧
      ((∀ r rs, (Csv.readAll [97, 10]).1 = r::rs → 2 ≤ r.length) →
        (restore (persistedStorer sortedPebble) sortedPebble.empty [97, 10]).2 =
          (Csv.readAll [97, 10]).2.map Error.csv)) := by
  have hst := sortedPebble_persistedStorer_lawful
  exact ⟨hst, restore_outcome hst _ _⟩

end DistributedKv.Fsm
