import DistributedKv.Types
import DistributedKv.SortedScan

/-!
# The pebble database

Both stores call a few methods of `pebble.DB`. Pebble is not part of the
repository, so its operations are a parameter `Pebble DB B`, over a database
state `DB` and a write batch `B`, and `Pebble.Lawful` states what the stores
rely on: a map from byte strings to byte strings under the bytewise order.
`Get` finds a stored value or returns `ErrNotFound`; a write either fails or
has exactly its effect; an iterator visits the keys within its bounds in
order; a batch holds its writes until `Apply` applies them all at once, the
later write winning; closing a batch returns `nil`.

A strictly sorted association list is such a database; it instantiates the
parameter in the witnesses.
-/

set_option autoImplicit false

namespace DistributedKv.PebbleDB

open DistributedKv.BigEndian (Bytes)
open DistributedKv.Types DistributedKv.SortedScan

/-- The methods of `pebble.DB` and `pebble.Batch` the stores call. `pending`
is what a batch holds: its writes, oldest first. -/
structure Pebble (DB B : Type) where
  empty : DB
  get : DB → Bytes → Except Error Bytes
  set : DB → Bytes → Bytes → Except Error DB
  delete : DB → Bytes → Except Error DB
  deleteRange : DB → Bytes → Bytes → Except Error DB
  newIter : DB → Option Bytes → Option Bytes → List (Bytes × Bytes)
  newBatch : DB → B
  pending : B → List (Bytes × Bytes)
  batchSet : B → Bytes → Bytes → Except Error B
  apply : DB → B → Except Error DB
  batchClose : B → Option Error

/-- The keys an iterator with `LowerBound` and `UpperBound` visits: `[lower, upper)`. -/
def inBounds (lower upper : Option Bytes) (k : Bytes) : Bool :=
  (match lower with | none => true | some lo => decide (lo ≤ k)) &&
    (match upper with | none => true | some hi => decide (k < hi))

variable {DB B : Type}

def Pebble.find (pb : Pebble DB B) (db : DB) (k : Bytes) : Option Bytes := (pb.get db k).toOption

def writeResult (db : DB) : Except Error DB → DB × Option Error
  | .ok db' => (db', none)
  | .error e => (db, some e)

@[simp] theorem writeResult_ok (db db' : DB) : writeResult db (.ok db') = (db', none) := rfl

@[simp] theorem writeResult_error (db : DB) (e : Error) : writeResult db (.error e) = (db, some e) := rfl

theorem writeResult_eq_none {db : DB} {r : Except Error DB} (h : (writeResult db r).2 = none) :
    r = .ok (writeResult db r).1 := by
  cases r with
  | ok db' => rfl
  | error e => cases h

theorem writeResult_eq_some {db : DB} {r : Except Error DB} {e : Error}
    (h : (writeResult db r).2 = some e) : (writeResult db r).1 = db := by
  cases r with
  | ok db' => cases h
  | error e' => rfl

structure Pebble.Lawful (pb : Pebble DB B) : Prop where
  get_empty : ∀ k, pb.get pb.empty k = .error .pebbleNotFound
  get_cases : ∀ db k, (∃ v, pb.get db k = .ok v) ∨ pb.get db k = .error .pebbleNotFound
  get_set : ∀ db db' k v, pb.set db k v = .ok db' →
    ∀ k', pb.get db' k' = if k' = k then .ok v else pb.get db k'
  get_delete : ∀ db db' k, pb.delete db k = .ok db' →
    ∀ k', pb.get db' k' = if k' = k then .error .pebbleNotFound else pb.get db k'
  get_deleteRange : ∀ db db' a b, pb.deleteRange db a b = .ok db' →
    ∀ k, pb.get db' k = if a ≤ k ∧ k < b then .error .pebbleNotFound else pb.get db k
  newIter_scans : ∀ db lower upper,
    Scans (pb.find db) (fun k => inBounds lower upper k = true) (pb.newIter db lower upper)
  pending_newBatch : ∀ db, pb.pending (pb.newBatch db) = []
  pending_batchSet : ∀ b b' k v, pb.batchSet b k v = .ok b' → pb.pending b' = pb.pending b++[(k, v)]
  get_apply : ∀ db db' b, pb.apply db b = .ok db' →
    ∀ k, pb.get db' k = match (pb.pending b).reverse.lookup k with
      | some v => .ok v
      | none => pb.get db k
  batchClose_none : ∀ b, pb.batchClose b = none

section Lawful
variable {pb : Pebble DB B} (hpb : pb.Lawful)
include hpb

theorem Pebble.Lawful.find_eq_some {db : DB} {k v : Bytes} : pb.find db k = some v ↔ pb.get db k = .ok v := by
  unfold Pebble.find
  rcases hpb.get_cases db k with ⟨w, hw⟩ | hn
  · rw [hw]
    simp [Except.toOption]
  · rw [hn]
    simp [Except.toOption]

theorem Pebble.Lawful.find_eq_none {db : DB} {k : Bytes} :
    pb.find db k = none ↔ pb.get db k = .error .pebbleNotFound := by
  unfold Pebble.find
  rcases hpb.get_cases db k with ⟨w, hw⟩ | hn
  · rw [hw]
    simp [Except.toOption]
  · rw [hn]
    simp [Except.toOption]

theorem Pebble.Lawful.get_eq (db : DB) (k : Bytes) :
    pb.get db k = match pb.find db k with
      | some v => .ok v
      | none => .error .pebbleNotFound := by
  rcases hpb.get_cases db k with ⟨v, hv⟩ | hn
  · rw [(hpb.find_eq_some).mpr hv, hv]
  · rw [(hpb.find_eq_none).mpr hn, hn]

theorem Pebble.Lawful.find_set {db db' : DB} {k v : Bytes} (h : pb.set db k v = .ok db') (k' : Bytes) :
    pb.find db' k' = if k' = k then some v else pb.find db k' := by
  unfold Pebble.find
  rw [hpb.get_set db db' k v h k']
  split <;> rfl

theorem Pebble.Lawful.find_delete {db db' : DB} {k : Bytes} (h : pb.delete db k = .ok db') (k' : Bytes) :
    pb.find db' k' = if k' = k then none else pb.find db k' := by
  unfold Pebble.find
  rw [hpb.get_delete db db' k h k']
  split <;> rfl

theorem Pebble.Lawful.find_deleteRange {db db' : DB} {a b : Bytes} (h : pb.deleteRange db a b = .ok db')
    (k : Bytes) : pb.find db' k = if a ≤ k ∧ k < b then none else pb.find db k := by
  unfold Pebble.find
  rw [hpb.get_deleteRange db db' a b h k]
  split <;> rfl

theorem Pebble.Lawful.find_apply {db db' : DB} {b : B} (h : pb.apply db b = .ok db') (k : Bytes) :
    pb.find db' k = ((pb.pending b).reverse.lookup k).or (pb.find db k) := by
  unfold Pebble.find
  rw [hpb.get_apply db db' b h k]
  cases (pb.pending b).reverse.lookup k <;> rfl

end Lawful

/-- The database as a sorted association list and a batch as its list of
writes; no write fails. -/
def sortedPebble : Pebble (SortedMap Bytes Bytes) (List (Bytes × Bytes)) where
  empty := SortedMap.empty
  get db k := match db.find k with
    | some v => .ok v
    | none => .error .pebbleNotFound
  set db k v := .ok (db.insert k v)
  delete db k := .ok (db.filter (fun k' => k' ≠ k))
  deleteRange db a b := .ok (db.filter (fun k => !decide (a ≤ k ∧ k < b)))
  newIter db lower upper := db.entries.filter (fun kv => inBounds lower upper kv.1)
  newBatch _ := []
  pending b := b
  batchSet b k v := .ok (b++[(k, v)])
  apply db b := .ok (b.foldl (fun d kv => d.insert kv.1 kv.2) db)
  batchClose _ := none

theorem sortedPebble_find (db : SortedMap Bytes Bytes) (k : Bytes) :
    sortedPebble.find db k = db.find k := by
  cases h : db.find k <;> simp [Pebble.find, sortedPebble, h, Except.toOption]

theorem find_foldl_insert (b : List (Bytes × Bytes)) (db : SortedMap Bytes Bytes) (k : Bytes) :
    (b.foldl (fun d kv => d.insert kv.1 kv.2) db).find k =
      (b.reverse.lookup k).or (db.find k) := by
  induction b generalizing db with
  | nil => simp
  | cons kv b ih =>
    obtain ⟨k', v'⟩ := kv
    rw [List.foldl_cons, ih, List.reverse_cons, List.lookup_append, SortedMap.find_insert]
    by_cases hk : k = k'
    · subst hk
      cases b.reverse.lookup k <;> simp
    · simp [hk]

theorem sortedPebble_lawful : sortedPebble.Lawful where
  get_empty k := rfl
  get_cases db k := by
    cases h : db.find k <;> simp [sortedPebble, h]
  get_set db db' k v h k' := by
    cases h
    simp only [sortedPebble, SortedMap.find_insert]
    by_cases hk : k' = k <;> simp [hk]
  get_delete db db' k h k' := by
    cases h
    simp only [sortedPebble, SortedMap.find_filter]
    by_cases hk : k' = k <;> simp [hk]
  get_deleteRange db db' a b h k := by
    cases h
    simp only [sortedPebble, SortedMap.find_filter]
    by_cases hk : a ≤ k ∧ k < b
    · rw [if_pos hk, decide_eq_true hk]
      rfl
    · rw [if_neg hk, decide_eq_false hk]
      rfl
  newIter_scans db lower upper := by
    have h := SortedMap.scans_filter db (inBounds lower upper)
    rw [show sortedPebble.find db = db.find from funext (sortedPebble_find db)]
    exact h
  pending_newBatch db := rfl
  pending_batchSet b b' k v h := by
    cases h
    rfl
  get_apply db db' b h k := by
    cases h
    simp only [sortedPebble, find_foldl_insert]
    cases b.reverse.lookup k <;> rfl
  batchClose_none b := rfl

end DistributedKv.PebbleDB
