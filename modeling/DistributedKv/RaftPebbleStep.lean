import DistributedKv.RaftPebble

/-!
# What each call of the raft store does to the database

The two key spaces first: a log key is `0x00` and eight bytes, a stable key
`0x01` and the key, so the two never meet, and the bytewise order on log keys
is the order on their indices. Then, for a lawful pebble, one lemma says what
every call that returns nil leaves at each key (`exec_find`, through
`Call.written`), and one that a call returning an error leaves the database
as it was (`exec_error`). The reads are stated once over the database's
bindings (`getLog_eq`, `get_eq`, `getUint64_eq`); later proofs cite these and
never unfold the store.
-/

set_option autoImplicit false

namespace DistributedKv.RaftPebble

open DistributedKv.BigEndian
open DistributedKv.Types DistributedKv.PebbleDB DistributedKv.SortedScan

theorem logKey_eq (i : UInt64) : logKey i = 0::putUint64 i := rfl

theorem confKey_eq (k : Bytes) : confKey k = 1::k := rfl

@[simp] theorem logKey_ne_confKey (i : UInt64) (k : Bytes) : logKey i ≠ confKey k := by
  simp [logKey_eq, confKey_eq]

@[simp] theorem logKey_inj {i j : UInt64} : logKey i = logKey j ↔ i = j := by
  rw [logKey_eq, logKey_eq, List.cons.injEq]
  exact ⟨fun h => putUint64_injective _ _ h.2, fun h => ⟨rfl, congrArg putUint64 h⟩⟩

@[simp] theorem confKey_inj {k k' : Bytes} : confKey k = confKey k' ↔ k = k' := by
  simp [confKey_eq]

theorem logKey_lt_logKey (i j : UInt64) : logKey i < logKey j ↔ i < j := by
  rw [logKey_eq, logKey_eq, List.cons_lt_cons_iff, putUint64_lt_putUint64]
  simp [Std.lt_irrefl]

theorem logKey_le_logKey (i j : UInt64) : logKey i ≤ logKey j ↔ i ≤ j := by
  rw [← Std.not_lt, logKey_lt_logKey, UInt64.not_lt]

theorem inBounds_log_iff (k : Bytes) :
    inBounds (some prefixLog) (some prefixConf) k = true ↔ ∃ t, k = 0::t := by
  simp only [inBounds, prefixLog, prefixConf, Bool.and_eq_true]
  cases k with
  | nil => simp
  | cons a t =>
    simp only [List.cons_le_cons_iff, List.cons_lt_cons_iff, List.nil_le, List.not_lt_nil,
      and_false, or_false, and_true, List.cons.injEq, exists_eq_right', decide_eq_true_eq]
    constructor
    · rintro ⟨h1, h2⟩
      rw [UInt8.lt_iff_toNat_lt] at h2
      rcases h1 with h1 | h1
      · rw [UInt8.lt_iff_toNat_lt] at h1
        simp at h1 h2
        omega
      · exact h1.symm
    · rintro rfl
      decide

@[simp] theorem logKey_inBounds (i : UInt64) :
    inBounds (some prefixLog) (some prefixConf) (logKey i) = true :=
  (inBounds_log_iff _).mpr ⟨_, logKey_eq i⟩

@[simp] theorem confKey_not_inBounds (k : Bytes) :
    inBounds (some prefixLog) (some prefixConf) (confKey k) = false := by
  have h : ¬∃ t, confKey k = 0::t := by simp [confKey_eq]
  simpa [← inBounds_log_iff] using h

theorem confKey_not_between (a b : UInt64) (k : Bytes) : ¬(logKey a ≤ confKey k ∧ confKey k < logKey b) := by
  rintro ⟨-, h⟩
  rw [confKey_eq, logKey_eq, List.cons_lt_cons_iff] at h
  rcases h with h | ⟨h, -⟩ <;> simp at h

@[simp] theorem bytesToUint64_uint64ToBytes (i : UInt64) : bytesToUint64 (uint64ToBytes i) = .ok i := by
  simp [bytesToUint64, uint64ToBytes]

/-- The log-key encoding is an order embedding into the iterator's range
`[prefixLog, prefixConf)`, which no stable key enters. -/
theorem logKey_order_embedding (a b : UInt64) (k : Bytes) :
    bytesToUint64 (uint64ToBytes a) = .ok a ∧
      (prefixLog++uint64ToBytes a < prefixLog++uint64ToBytes b ↔ a < b) ∧
      (prefixLog ≤ prefixLog++uint64ToBytes a ∧ prefixLog++uint64ToBytes a < prefixConf) ∧
      ¬(prefixLog ≤ prefixConf++k ∧ prefixConf++k < prefixConf) := by
  have hlog := logKey_inBounds a
  have hconf := confKey_not_inBounds k
  simp only [inBounds, Bool.and_eq_true, decide_eq_true_eq] at hlog
  simp only [inBounds, Bool.and_eq_false_iff, decide_eq_false_iff_not] at hconf
  refine ⟨bytesToUint64_uint64ToBytes a, logKey_lt_logKey a b, hlog, ?_⟩
  rintro ⟨hlo, hhi⟩
  rcases hconf with h | h
  · exact h hlo
  · exact h hhi

theorem lt_add_one_iff_le {i maxi : UInt64} (h : maxi ≠ maxUint64) : i < maxi+1 ↔ i ≤ maxi := by
  have hmax : maxi.toNat < 2^64-1 := by
    have hlt := maxi.toNat_lt
    have hne : maxi.toNat ≠ maxUint64.toNat := fun e => h (UInt64.toNat_inj.mp e)
    simp [maxUint64] at hne
    omega
  rw [UInt64.lt_iff_toNat_lt, UInt64.le_iff_toNat_le, UInt64.toNat_add]
  simp only [UInt64.toNat_one]
  omega

theorem maxUint64_add_one : maxUint64+1 = 0 := by decide

theorem logKey_between (mini maxi i : UInt64) :
    logKey mini ≤ logKey i ∧ logKey i < logKey (maxi+1) ↔ mini ≤ i ∧ i < maxi+1 := by
  rw [logKey_le_logKey, logKey_lt_logKey]

section Reads

variable {DB B : Type} {pb : Pebble DB B} (hpb : pb.Lawful) (cd : Codec)
include hpb

theorem getLog_eq (db : DB) (i : UInt64) :
    getLog pb cd db i = match pb.find db (logKey i) with
      | some v => cd.decode v
      | none => .error .logNotFound := by
  rcases hpb.get_cases db (logKey i) with ⟨v, hv⟩ | hn
  · rw [(hpb.find_eq_some).mpr hv, getLog, hv]
  · rw [(hpb.find_eq_none).mpr hn, getLog, hn]

theorem getValue_eq {α : Type} (db : DB) (key : Bytes) (op : Option Bytes → Except Error α) :
    getValue pb db key op = op (pb.find db key) := by
  rcases hpb.get_cases db key with ⟨v, hv⟩ | hn
  · rw [(hpb.find_eq_some).mpr hv, getValue, hv]
  · rw [(hpb.find_eq_none).mpr hn, getValue, hn]

theorem get_eq (db : DB) (key : Bytes) :
    get pb db key = match pb.find db (confKey key) with
      | some v => .ok v
      | none => .error .keyNotFound := by
  rw [get, getValue_eq hpb]
  cases pb.find db (confKey key) <;> rfl

theorem getUint64_eq (db : DB) (key : Bytes) :
    getUint64 pb db key = match pb.find db (confKey key) with
      | some v => bytesToUint64 v
      | none => .error .keyNotFound := by
  rw [getUint64, getValue_eq hpb]
  cases pb.find db (confKey key) <;> rfl

end Reads

variable (cd : Codec)

/-- What the database holds at `k` after a call that returns nil, given what it
held before (`found`). -/
def Call.written : Call → (Bytes → Option Bytes) → Bytes → Option Bytes
  | .storeLog log, found, k => if k = logKey log.index then (cd.encode log).toOption else found k
  | .storeLogs logs, found, k =>
    match logs.reverse.find? (fun l => logKey l.index = k) with
    | some l => (cd.encode l).toOption
    | none => found k
  | .deleteRange mini maxi, found, k =>
    if logKey mini ≤ k ∧ k < logKey (maxi+1) then none else found k
  | .set key val, found, k => if k = confKey key then some val else found k
  | .setUint64 key val, found, k => if k = confKey key then some (uint64ToBytes val) else found k

def Call.storedLogs : Call → List Log
  | .storeLog log => [log]
  | .storeLogs logs => logs
  | _ => []

@[simp] theorem firstError_eq_none (e1 e2 : Option Error) :
    firstError e1 e2 = none ↔ e1 = none ∧ e2 = none := by
  cases e1 <;> simp [firstError]

section Writes

variable {DB B : Type} {pb : Pebble DB B}

theorem storeLogsLoop_cons_ok {wb wb' : B} {log : Log} {logs : List Log}
    (h : storeLogsLoop pb cd wb (log::logs) = (wb', none)) :
    ∃ val wb1, cd.encode log = .ok val ∧ pb.batchSet wb (logKey log.index) val = .ok wb1 ∧
      storeLogsLoop pb cd wb1 logs = (wb', none) := by
  rw [storeLogsLoop] at h
  cases he : cd.encode log with
  | error e => simp [he] at h
  | ok val =>
    cases hs : pb.batchSet wb (logKey log.index) val with
    | error e => simp [he, hs] at h
    | ok wb1 =>
      simp only [he, hs] at h
      exact ⟨val, wb1, rfl, hs, h⟩

theorem storeLogsLoop_encode {wb wb' : B} {logs : List Log} (h : storeLogsLoop pb cd wb logs = (wb', none)) :
    ∀ l ∈ logs, ∃ v, cd.encode l = .ok v := by
  induction logs generalizing wb with
  | nil => simp
  | cons log logs ih =>
    obtain ⟨val, wb1, he, -, h1⟩ := storeLogsLoop_cons_ok cd h
    intro l hl
    rcases List.mem_cons.mp hl with rfl | hl
    · exact ⟨val, he⟩
    · exact ih h1 l hl

theorem storeLogs_ok {db : DB} {logs : List Log} (h : (storeLogs pb cd db logs).2 = none) :
    ∃ wb, storeLogsLoop pb cd (pb.newBatch db) logs = (wb, none) ∧
      (writeResult db (pb.apply db wb)).2 = none ∧
      (storeLogs pb cd db logs).1 = (writeResult db (pb.apply db wb)).1 := by
  cases hl : storeLogsLoop pb cd (pb.newBatch db) logs with
  | mk wb err =>
    cases err with
    | some e => simp [storeLogs, hl, firstError] at h
    | none =>
      simp only [storeLogs, hl, firstError_eq_none] at h ⊢
      exact ⟨wb, rfl, h.1, rfl⟩

variable (hpb : pb.Lawful)
include hpb

theorem storeLogsLoop_lookup {wb wb' : B} {logs : List Log} (h : storeLogsLoop pb cd wb logs = (wb', none))
    (k : Bytes) :
    (pb.pending wb').reverse.lookup k =
      match logs.reverse.find? (fun l => logKey l.index = k) with
      | some l => (cd.encode l).toOption
      | none => (pb.pending wb).reverse.lookup k := by
  induction logs generalizing wb with
  | nil =>
    cases h
    rfl
  | cons log logs ih =>
    obtain ⟨val, wb1, he, hs, h1⟩ := storeLogsLoop_cons_ok cd h
    rw [ih h1, hpb.pending_batchSet _ _ _ _ hs, List.reverse_cons, List.find?_append]
    -- a later log of the index is found first; else this one, else the batch before
    cases logs.reverse.find? (fun l => logKey l.index = k) with
    | some l => rfl
    | none =>
      by_cases hk : logKey log.index = k
      · subst hk
        simp [he, Except.toOption]
      · simp [hk, lookup_cons_ne _ (Ne.symm hk)]

theorem storeLog_find {db : DB} {log : Log} (h : (storeLog pb cd db log).2 = none) (k : Bytes) :
    pb.find (storeLog pb cd db log).1 k = (Call.storeLog log).written cd (pb.find db) k := by
  cases he : cd.encode log with
  | error e => simp [storeLog, he] at h
  | ok val =>
    simp only [storeLog, he] at h ⊢
    rw [hpb.find_set (writeResult_eq_none h), Call.written, he]
    rfl

theorem storeLogs_find {db : DB} {logs : List Log} (h : (storeLogs pb cd db logs).2 = none) (k : Bytes) :
    pb.find (storeLogs pb cd db logs).1 k = (Call.storeLogs logs).written cd (pb.find db) k := by
  obtain ⟨wb, hl, hw, hdb⟩ := storeLogs_ok cd h
  rw [hdb, hpb.find_apply (writeResult_eq_none hw), storeLogsLoop_lookup cd hpb hl,
    hpb.pending_newBatch, Call.written]
  cases hf : logs.reverse.find? (fun l => logKey l.index = k) with
  | none => rfl
  | some l =>
    have hmem : l ∈ logs := List.mem_reverse.mp (List.mem_of_find?_eq_some hf)
    obtain ⟨v, hv⟩ := storeLogsLoop_encode cd hl l hmem
    simp [hv, Except.toOption]

theorem deleteRange_find {db : DB} {mini maxi : UInt64} (h : (deleteRange pb db mini maxi).2 = none)
    (k : Bytes) :
    pb.find (deleteRange pb db mini maxi).1 k = (Call.deleteRange mini maxi).written cd (pb.find db) k := by
  simp only [deleteRange] at h ⊢
  rw [hpb.find_deleteRange (writeResult_eq_none h)]
  rfl

theorem set_find {db : DB} {key val : Bytes} (h : (set pb db key val).2 = none) (k : Bytes) :
    pb.find (set pb db key val).1 k = if k = confKey key then some val else pb.find db k :=
  hpb.find_set (writeResult_eq_none h) k

omit hpb in
theorem exec_encode {db : DB} {c : Call} (h : (exec pb cd db c).2 = none) :
    ∀ l ∈ c.storedLogs, ∃ v, cd.encode l = .ok v := by
  cases c with
  | storeLog log =>
    intro l hl
    rw [Call.storedLogs, List.mem_singleton] at hl
    subst hl
    cases he : cd.encode l with
    | error e => simp [exec, storeLog, he] at h
    | ok v => exact ⟨v, rfl⟩
  | storeLogs logs =>
    obtain ⟨wb, hl, -⟩ := storeLogs_ok cd h
    exact storeLogsLoop_encode cd hl
  | deleteRange mini maxi => simp [Call.storedLogs]
  | set key val | setUint64 key val => simp [Call.storedLogs]

theorem exec_find {db : DB} {c : Call} (h : (exec pb cd db c).2 = none) (k : Bytes) :
    pb.find (exec pb cd db c).1 k = c.written cd (pb.find db) k := by
  cases c with
  | storeLog log => exact storeLog_find cd hpb h k
  | storeLogs logs => exact storeLogs_find cd hpb h k
  | deleteRange mini maxi => exact deleteRange_find cd hpb h k
  | set key val | setUint64 key val => exact set_find hpb h k

theorem exec_error {db : DB} {c : Call} {e : Error} (h : (exec pb cd db c).2 = some e) :
    (exec pb cd db c).1 = db := by
  cases c with
  | storeLog log =>
    cases he : cd.encode log with
    | error e' => simp [exec, storeLog, he]
    | ok val =>
      simp only [exec, storeLog, he] at h ⊢
      exact writeResult_eq_some h
  | storeLogs logs =>
    cases hl : storeLogsLoop pb cd (pb.newBatch db) logs with
    | mk wb err =>
      simp only [exec, storeLogs, hl] at h ⊢
      cases err with
      | some e' => rfl
      | none =>
        cases hr : (writeResult db (pb.apply db wb)).2 with
        | some e' => exact writeResult_eq_some hr
        | none => simp [hr, hpb.batchClose_none, firstError] at h
  | deleteRange mini maxi => exact writeResult_eq_some h
  | set key val | setUint64 key val => exact writeResult_eq_some h

end Writes

end DistributedKv.RaftPebble
