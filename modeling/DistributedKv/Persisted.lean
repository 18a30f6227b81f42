import DistributedKv.PebbleDB
import DistributedKv.Machine

/-!
# The persisted storer

`persisted.Store` is the storer the replicated state machine runs on: a
pebble database whose `Get`, `Set` and `Delete` are pebble's, whose `Dump`
collects a full iteration into a Go map, and whose `Clear` deletes, one by
one, the keys of an iterator opened before the first delete; a failed delete
panics. Against a lawful pebble, every run of calls that return normally
leaves the store holding, at each key, the value of the last `Set` of that
key that no `Delete` of it and no `Clear` followed.
-/

set_option autoImplicit false

namespace DistributedKv.Persisted

open DistributedKv.BigEndian DistributedKv.SortedScan
open DistributedKv.Types DistributedKv.PebbleDB

section Store

variable {DB B : Type} (pb : Pebble DB B)

def get (db : DB) (key : Bytes) : Except Error Bytes := pb.get db key

def set (db : DB) (key value : Bytes) : DB × Option Error := writeResult db (pb.set db key value)

def delete (db : DB) (key : Bytes) : DB × Option Error := writeResult db (pb.delete db key)

def dump (db : DB) : GoMap :=
  (pb.newIter db none none).foldl (fun (data : GoMap) kv => data.insert kv.1 kv.2) ∅

/-- The loop of `Clear` over the bindings its iterator saw when it was opened.
A failed delete panics, with the deletions before it done. -/
def clearLoop (db : DB) : List (Bytes × Bytes) → DB × Option Error
  | [] => (db, none)
  | kv::kvs =>
    match pb.delete db kv.1 with
    | .error e => (db, some (.panic e))
    | .ok db' => clearLoop db' kvs

def clear (db : DB) : DB × Option Error := clearLoop pb db (pb.newIter db none none)

end Store

inductive Call where
  | set (key value : Bytes)
  | delete (key : Bytes)
  | clear
  deriving DecidableEq, Repr

section Exec

variable {DB B : Type} (pb : Pebble DB B)

def exec (db : DB) : Call → DB × Option Error
  | .set key value => set pb db key value
  | .delete key => delete pb db key
  | .clear => clear pb db

def runCalls (calls : List Call) : DB := Machine.run (exec pb) pb.empty calls

end Exec

def Call.touches (k : Bytes) : Call → Bool
  | .set key _ => key == k
  | .delete key => key == k
  | .clear => true

/-- The value of the last `Set(k, v)` that no `Delete(k)` and no `Clear` followed. -/
def valueAfter (calls : List Call) (k : Bytes) : Option Bytes :=
  match calls.reverse.find? (Call.touches k) with
  | some (.set _ v) => some v
  | _ => none

def Call.written : Call → (Bytes → Option Bytes) → Bytes → Option Bytes
  | .set key value, found, k => if k = key then some value else found k
  | .delete key, found, k => if k = key then none else found k
  | .clear, _, _ => none

theorem valueAfter_concat (calls : List Call) (c : Call) (k : Bytes) :
    valueAfter (calls++[c]) k = c.written (valueAfter calls) k := by
  cases c with
  | set key _ | delete key =>
    by_cases hk : key = k
    · simp [valueAfter, Call.touches, Call.written, hk]
    · simp [valueAfter, Call.touches, Call.written, hk, Ne.symm hk]
  | clear => simp [valueAfter, Call.touches, Call.written]

theorem foldl_written (calls : List Call) (k : Bytes) :
    calls.foldl (fun found c => c.written found) (fun _ => none) k = valueAfter calls k := by
  induction calls using List.reverseRecOn generalizing k with
  | nil => rfl
  | append_singleton calls c ih =>
    rw [List.foldl_append, List.foldl_cons, List.foldl_nil, valueAfter_concat, funext ih]

section Lawful

variable {DB B : Type} {pb : Pebble DB B} (hpb : pb.Lawful)
include hpb

theorem dump_lookup (db : DB) (k : Bytes) : (dump pb db).lookup k = pb.find db k := by
  have hs := hpb.newIter_scans db none none
  apply Option.ext
  intro v
  rw [dump, hs.lookup_collect]
  simp [inBounds]

theorem clearLoop_find {db : DB} {l : List (Bytes × Bytes)} (h : (clearLoop pb db l).2 = none)
    (k : Bytes) : pb.find (clearLoop pb db l).1 k = if k ∈ l.map Prod.fst then none else pb.find db k := by
  induction l generalizing db with
  | nil => simp [clearLoop]
  | cons kv l ih =>
    cases hd : pb.delete db kv.1 with
    | error e => simp [clearLoop, hd] at h
    | ok db1 =>
      simp only [clearLoop, hd] at h ⊢
      rw [ih h, hpb.find_delete hd]
      by_cases hk : k = kv.1
      · simp [hk]
      · simp only [List.map_cons, List.mem_cons, hk, false_or, if_false]

theorem clear_find {db : DB} (h : (clear pb db).2 = none) (k : Bytes) : pb.find (clear pb db).1 k = none := by
  rw [clear, clearLoop_find hpb h]
  split_ifs with hk
  · rfl
  · cases hv : pb.find db k with
    | none => rfl
    | some v =>
      have hmem := ((hpb.newIter_scans db none none).mem_iff k v).mpr ⟨hv, by simp [inBounds]⟩
      exact absurd (List.mem_map_of_mem (f := Prod.fst) hmem) hk

theorem exec_find {db : DB} {c : Call} (h : (exec pb db c).2 = none) (k : Bytes) :
    pb.find (exec pb db c).1 k = c.written (pb.find db) k := by
  cases c with
  | set key value => exact hpb.find_set (writeResult_eq_none h) k
  | delete key => exact hpb.find_delete (writeResult_eq_none h) k
  | clear => exact clear_find hpb h k

theorem runCalls_find (calls : List Call) (hok : Machine.Succeeds (exec pb) pb.empty calls) :
    pb.find (runCalls pb calls) = valueAfter calls := by
  have h := Machine.run_simulates (exec pb) (R := fun db found => pb.find db = found)
    (f := fun found c => c.written found) (P := fun _ => True)
    (fun db found c _ hR he => by rw [← hR]; exact funext (exec_find hpb he)) calls pb.empty
    (fun _ => none) (fun _ _ => trivial) hok (funext fun k => (hpb.find_eq_none).mpr (hpb.get_empty k))
  rw [runCalls, h]
  exact funext (foldl_written calls)

theorem dump_eq_empty {db : DB} (h : ∀ k, pb.find db k = none) : dump pb db = ∅ := by
  have hnil : pb.newIter db none none = [] :=
    ((hpb.newIter_scans db none none).eq_nil_iff).mpr fun k _ => h k
  rw [dump, hnil]
  rfl

end Lawful

/-- From an empty database, after `Set`, `Delete` and `Clear` calls that all
return normally, `Get(k)` returns the value of the last `Set(k, v)` that no
`Delete(k)` and no `Clear` followed, and `ErrNotFound` when there is none;
`Dump` holds exactly these bindings; and right after a `Clear`, `Dump` is
empty and every `Get` fails. -/
theorem persisted_store_refines_map {DB B : Type} {pb : Pebble DB B} (hpb : pb.Lawful) (calls : List Call)
    (hok : Machine.Succeeds (exec pb) pb.empty calls) :
    (∀ k, get pb (runCalls pb calls) k =
      match valueAfter calls k with
      | some v => .ok v
      | none => .error .pebbleNotFound) ∧
    (∀ k, (dump pb (runCalls pb calls)).lookup k = valueAfter calls k) ∧
    (∀ db : DB, (clear pb db).2 = none →
      dump pb (clear pb db).1 = ∅ ∧ ∀ k, get pb (clear pb db).1 k = .error .pebbleNotFound) := by
  have hfind := runCalls_find hpb calls hok
  refine ⟨fun k => ?_, fun k => ?_, fun db h => ⟨dump_eq_empty hpb (clear_find hpb h), fun k => ?_⟩⟩
  · have hg := hpb.get_eq (runCalls pb calls) k
    rw [hfind] at hg
    exact hg
  · rw [dump_lookup hpb, hfind]
  · rw [get, hpb.get_eq, clear_find hpb h]

theorem persisted_store_refines_map_sorted :
    let calls := [.set [1] [10], .set [2] [20], .delete [1], .set [3] [30], .clear, .set [2] [21]]
    sortedPebble.Lawful ∧ Machine.Succeeds (exec sortedPebble) sortedPebble.empty calls ∧
    (∀ k, get sortedPebble (runCalls sortedPebble calls) k =
      match valueAfter calls k with
      | some v => .ok v
      | none => .error .pebbleNotFound) ∧
    (∀ k, (dump sortedPebble (runCalls sortedPebble calls)).lookup k = valueAfter calls k) ∧
    (∀ db, (clear sortedPebble db).2 = none →
      dump sortedPebble (clear sortedPebble db).1 = ∅ ∧
        ∀ k, get sortedPebble (clear sortedPebble db).1 k = .error .pebbleNotFound) := by
  intro calls
  have hok : Machine.Succeeds (exec sortedPebble) sortedPebble.empty calls := by decide
  exact ⟨sortedPebble_lawful, hok, persisted_store_refines_map sortedPebble_lawful calls hok⟩

end DistributedKv.Persisted
