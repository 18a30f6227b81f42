import DistributedKv.RaftPebbleIndex

/-!
# The raft store as a log and a stable map

What `PebbleKVStore` is for: raft's log, a map from indices to entries, and
its stable store, a map from byte strings to byte strings. `LogStore` is that
pair and `LogStore.apply` the calls on it. The database refines it through
two relations: under the key of every index it holds an encoding of the
abstract entry there (`LogsAgree`), and under the key of every stable key the
abstract value (`StableAgrees`). Every call that returns nil keeps the stable
relation, and every one keeps the log relation except a `DeleteRange` whose
`maxi+1` wraps to 0, which then deletes nothing.
-/

set_option autoImplicit false

namespace DistributedKv.RaftPebble

open DistributedKv.BigEndian DistributedKv.SortedScan
open DistributedKv.Types DistributedKv.PebbleDB

structure LogStore where
  logs : UInt64 → Option Log
  stable : Bytes → Option Bytes

namespace LogStore

def empty : LogStore := ⟨fun _ => none, fun _ => none⟩

def storeLog (s : LogStore) (log : Log) : LogStore :=
  { s with logs := Function.update s.logs log.index (some log) }

/-- The inclusive range `[mini, maxi]`. -/
def deleteRange (s : LogStore) (mini maxi : UInt64) : LogStore :=
  { s with logs := fun i => if mini ≤ i ∧ i ≤ maxi then none else s.logs i }

def set (s : LogStore) (key val : Bytes) : LogStore :=
  { s with stable := Function.update s.stable key (some val) }

def apply (s : LogStore) : Call → LogStore
  | .storeLog log => s.storeLog log
  | .storeLogs logs => logs.foldl storeLog s
  | .deleteRange mini maxi => s.deleteRange mini maxi
  | .set key val => s.set key val
  | .setUint64 key val => s.set key (uint64ToBytes val)

def run (calls : List Call) : LogStore := calls.foldl apply empty

end LogStore

def Call.isDeleteRange : Call → Bool
  | .deleteRange _ _ => true
  | _ => false

/-- A `DeleteRange` whose end key `maxi+1` does not wrap. -/
def Call.noWrap : Call → Bool
  | .deleteRange _ maxi => maxi != maxUint64
  | _ => true

def Call.stableKey : Call → Option Bytes
  | .set key _ => some key
  | .setUint64 key _ => some key
  | _ => none

def Call.stableValue : Call → Option Bytes
  | .set _ val => some val
  | .setUint64 _ val => some (uint64ToBytes val)
  | _ => none

def lastStableWrite (calls : List Call) (k : Bytes) : Option Call :=
  calls.reverse.find? (fun c => c.stableKey = some k)

/-- The log most recently stored under index `i`, the later one within a batch. -/
def lastStoredLog (calls : List Call) (i : UInt64) : Option Log :=
  (calls.flatMap Call.storedLogs).reverse.find? (fun l => l.index = i)

theorem lastStableWrite_concat (calls : List Call) (c : Call) (k : Bytes) :
    lastStableWrite (calls++[c]) k = if c.stableKey = some k then some c else lastStableWrite calls k := by
  by_cases hc : c.stableKey = some k <;> simp [lastStableWrite, hc]

theorem lastStoredLog_concat (calls : List Call) (c : Call) (i : UInt64) :
    lastStoredLog (calls++[c]) i =
      (c.storedLogs.reverse.find? (fun l => l.index = i)).or (lastStoredLog calls i) := by
  simp [lastStoredLog, List.find?_append]

namespace LogStore

theorem storeLog_logs (s : LogStore) (log : Log) (i : UInt64) :
    (s.storeLog log).logs i = if i = log.index then some log else s.logs i := by
  simp [storeLog, Function.update_apply]

theorem foldl_storeLog_logs (logs : List Log) (s : LogStore) (i : UInt64) :
    (logs.foldl storeLog s).logs i = (logs.reverse.find? (fun l => l.index = i)).or (s.logs i) := by
  induction logs using List.reverseRecOn with
  | nil => simp
  | append_singleton logs log ih =>
    rw [List.foldl_append, List.foldl_cons, List.foldl_nil, storeLog_logs, ih, List.reverse_append]
    by_cases hi : log.index = i
    · simp [hi]
    · simp [hi, Ne.symm hi]

theorem apply_stable (s : LogStore) (c : Call) (k : Bytes) :
    (s.apply c).stable k = if c.stableKey = some k then c.stableValue else s.stable k := by
  cases c with
  | storeLog log => simp [apply, storeLog, Call.stableKey]
  | storeLogs logs =>
    have h : ∀ (t : LogStore), (logs.foldl storeLog t).stable = t.stable := by
      induction logs with
      | nil => simp
      | cons log logs ih => exact fun t => ih _
    simp [apply, h, Call.stableKey]
  | deleteRange mini maxi => simp [apply, deleteRange, Call.stableKey]
  | set key val | setUint64 key val =>
    by_cases hk : key = k
    · simp [apply, set, Call.stableKey, Call.stableValue, hk]
    · simp [apply, set, Call.stableKey, hk, Ne.symm hk]

theorem foldl_apply_stable (calls : List Call) (s : LogStore) (k : Bytes) :
    (calls.foldl apply s).stable k =
      match lastStableWrite calls k with
      | some c => c.stableValue
      | none => s.stable k := by
  induction calls using List.reverseRecOn with
  | nil => rfl
  | append_singleton calls c ih =>
    rw [List.foldl_append, List.foldl_cons, List.foldl_nil, apply_stable, ih, lastStableWrite_concat]
    by_cases hc : c.stableKey = some k
    · simp [hc]
    · simp [hc]

theorem foldl_apply_logs (calls : List Call) (hcalls : ∀ c ∈ calls, c.isDeleteRange = false)
    (s : LogStore) (i : UInt64) :
    (calls.foldl apply s).logs i = (lastStoredLog calls i).or (s.logs i) := by
  induction calls using List.reverseRecOn with
  | nil => simp [lastStoredLog]
  | append_singleton calls c ih =>
    have hc : c.isDeleteRange = false := hcalls c (by simp)
    have hrest := ih (fun c' hc' => hcalls c' (by simp [hc']))
    rw [List.foldl_append, List.foldl_cons, List.foldl_nil, lastStoredLog_concat, Option.or_assoc,
      ← hrest]
    cases c with
    | storeLog log =>
      rw [apply, storeLog_logs]
      by_cases hi : log.index = i
      · simp [Call.storedLogs, hi]
      · simp [Call.storedLogs, hi, Ne.symm hi]
    | storeLogs logs => simp [apply, foldl_storeLog_logs, Call.storedLogs]
    | deleteRange mini maxi => simp [Call.isDeleteRange] at hc
    | set key val | setUint64 key val => simp [apply, set, Call.storedLogs]

end LogStore

def LogsAgree (cd : Codec) (found : Bytes → Option Bytes) (logs : UInt64 → Option Log) : Prop :=
  ∀ i, Option.Rel (fun v l => cd.decode v = .ok l) (found (logKey i)) (logs i)

def StableAgrees (found : Bytes → Option Bytes) (stable : Bytes → Option Bytes) : Prop :=
  ∀ k, found (confKey k) = stable k

section Written

variable (cd : Codec)

theorem written_stableAgrees {found : Bytes → Option Bytes} {s : LogStore}
    (h : StableAgrees found s.stable) (c : Call) : StableAgrees (c.written cd found) (s.apply c).stable := by
  intro k
  rw [LogStore.apply_stable, ← h k]
  cases c with
  | storeLog log => simp [Call.written, Call.stableKey, Ne.symm (logKey_ne_confKey _ _)]
  | storeLogs logs =>
    have hnone : logs.reverse.find? (fun l => logKey l.index = confKey k) = none :=
      List.find?_eq_none.mpr (fun l _ => by simp)
    simp only [Call.written, Call.stableKey, hnone]
    simp
  | deleteRange mini maxi => simp [Call.written, Call.stableKey, confKey_not_between]
  | set key val | setUint64 key val =>
    by_cases hk : key = k
    · simp [Call.written, Call.stableKey, Call.stableValue, hk]
    · simp [Call.written, Call.stableKey, hk, Ne.symm hk]

variable {cd} (hcd : cd.Lawful)
include hcd

theorem rel_of_encode {l : Log} {v : Bytes} (h : cd.encode l = .ok v) :
    Option.Rel (fun v l => cd.decode v = .ok l) (cd.encode l).toOption (some l) := by
  rw [h]
  exact Option.Rel.some (hcd.decode_encode l v h)

theorem written_logsAgree {found : Bytes → Option Bytes} {s : LogStore} (h : LogsAgree cd found s.logs)
    (c : Call) (henc : ∀ l ∈ c.storedLogs, ∃ v, cd.encode l = .ok v) (hwrap : c.noWrap = true) :
    LogsAgree cd (c.written cd found) (s.apply c).logs := by
  intro i
  cases c with
  | storeLog log =>
    obtain ⟨v, hv⟩ := henc log (by simp [Call.storedLogs])
    rw [Call.written, LogStore.apply, LogStore.storeLog_logs]
    by_cases hi : i = log.index
    · subst hi
      simpa using rel_of_encode hcd hv
    · simpa [hi] using h i
  | storeLogs logs =>
    rw [Call.written, LogStore.apply, LogStore.foldl_storeLog_logs]
    simp only [logKey_inj]
    cases hf : logs.reverse.find? (fun l => l.index = i) with
    | none => simpa using h i
    | some l =>
      obtain ⟨v, hv⟩ := henc l (List.mem_reverse.mp (List.mem_of_find?_eq_some hf))
      simpa using rel_of_encode hcd hv
  | deleteRange mini maxi =>
    have hmax : maxi ≠ maxUint64 := by simpa [Call.noWrap] using hwrap
    simp only [Call.written, LogStore.apply, LogStore.deleteRange, logKey_between,
      lt_add_one_iff_le hmax]
    split_ifs
    · exact Option.Rel.none
    · exact h i
  | set key val | setUint64 key val => simpa [Call.written, LogStore.apply, LogStore.set] using h i

end Written

section Store

variable {DB B : Type} {pb : Pebble DB B} (hpb : pb.Lawful) (cd : Codec)
include hpb

theorem getLog_of_logsAgree {db : DB} {logs : UInt64 → Option Log} (h : LogsAgree cd (pb.find db) logs)
    (i : UInt64) :
    getLog pb cd db i = match logs i with
      | some l => .ok l
      | none => .error .logNotFound := by
  have hi := h i
  rw [getLog_eq hpb]
  generalize pb.find db (logKey i) = a at hi ⊢
  generalize logs i = b at hi ⊢
  cases hi with
  | none => rfl
  | some hd => exact hd

theorem get_of_stableAgrees {db : DB} {stable : Bytes → Option Bytes} (h : StableAgrees (pb.find db) stable)
    (k : Bytes) :
    get pb db k = match stable k with
      | some v => .ok v
      | none => .error .keyNotFound := by
  have hget := get_eq hpb db k
  rw [h k] at hget
  exact hget

theorem getUint64_of_stableAgrees {db : DB} {stable : Bytes → Option Bytes}
    (h : StableAgrees (pb.find db) stable) (k : Bytes) :
    getUint64 pb db k = match stable k with
      | some v => bytesToUint64 v
      | none => .error .keyNotFound := by
  have hget := getUint64_eq hpb db k
  rw [h k] at hget
  exact hget

theorem empty_stableAgrees : StableAgrees (pb.find pb.empty) LogStore.empty.stable := by
  intro k
  rw [(hpb.find_eq_none).mpr (hpb.get_empty _)]
  rfl

theorem empty_logsAgree : LogsAgree cd (pb.find pb.empty) LogStore.empty.logs := by
  intro i
  rw [(hpb.find_eq_none).mpr (hpb.get_empty _)]
  exact Option.Rel.none

theorem runCalls_stableAgrees (calls : List Call) (hok : Machine.Succeeds (exec pb cd) pb.empty calls) :
    StableAgrees (pb.find (runCalls pb cd calls)) (LogStore.run calls).stable := by
  refine Machine.run_simulates (exec pb cd) (R := fun db s => StableAgrees (pb.find db) s.stable)
    (P := fun _ => True) ?_ calls pb.empty LogStore.empty (fun _ _ => trivial) hok
    (empty_stableAgrees hpb)
  intro db s c _ h he
  rw [funext (exec_find cd hpb he)]
  exact written_stableAgrees cd h c

variable {cd} (hcd : cd.Lawful)
include hcd

theorem runCalls_logsAgree (calls : List Call) (hwrap : ∀ c ∈ calls, c.noWrap = true)
    (hok : Machine.Succeeds (exec pb cd) pb.empty calls) :
    LogsAgree cd (pb.find (runCalls pb cd calls)) (LogStore.run calls).logs := by
  refine Machine.run_simulates (exec pb cd) (R := fun db s => LogsAgree cd (pb.find db) s.logs)
    (P := fun c => c.noWrap = true) ?_ calls pb.empty LogStore.empty hwrap hok (empty_logsAgree hpb cd)
  intro db s c hc h he
  rw [funext (exec_find cd hpb he)]
  exact written_logsAgree hcd h c (exec_encode cd he) hc

end Store

theorem noWrap_of_isDeleteRange {c : Call} (h : c.isDeleteRange = false) : c.noWrap = true := by
  cases c <;> simp_all [Call.isDeleteRange, Call.noWrap]

theorem getLog_exec_stable {DB B : Type} {pb : Pebble DB B} (hpb : pb.Lawful) (cd : Codec) (db : DB)
    (c : Call) (i : UInt64) (hc : c.storedLogs = [] ∧ c.isDeleteRange = false) :
    getLog pb cd (exec pb cd db c).1 i = getLog pb cd db i := by
  cases he : (exec pb cd db c).2 with
  | some e => rw [exec_error cd hpb he]
  | none =>
    rw [getLog_eq hpb, getLog_eq hpb, exec_find cd hpb he]
    cases c with
    | set key val | setUint64 key val => simp [Call.written]
    | storeLog log => simp [Call.storedLogs] at hc
    | storeLogs logs =>
      simp only [Call.storedLogs] at hc
      simp [Call.written, hc.1]
    | deleteRange mini maxi => simp [Call.isDeleteRange] at hc

/-- From the empty database, after calls other than `DeleteRange` that all
return nil, `GetLog(i)` returns the log last stored under `i` (within a batch
the later one) and `ErrLogNotFound` when none was; and a stable write leaves
every `GetLog` result as it was. -/
theorem getLog_last_stored {DB B : Type} {pb : Pebble DB B} {cd : Codec} (hpb : pb.Lawful)
    (hcd : cd.Lawful) (calls : List Call) (hcalls : ∀ c ∈ calls, c.isDeleteRange = false)
    (hok : Machine.Succeeds (exec pb cd) pb.empty calls) :
    (∀ i, getLog pb cd (runCalls pb cd calls) i =
      match lastStoredLog calls i with
      | some l => .ok l
      | none => .error .logNotFound) ∧
    (∀ (db : DB) (key val : Bytes) (i : UInt64),
      getLog pb cd (exec pb cd db (.set key val)).1 i = getLog pb cd db i) ∧
    (∀ (db : DB) (key : Bytes) (val i : UInt64),
      getLog pb cd (exec pb cd db (.setUint64 key val)).1 i = getLog pb cd db i) := by
  have hagree := runCalls_logsAgree hpb hcd calls (fun c hc => noWrap_of_isDeleteRange (hcalls c hc)) hok
  refine ⟨fun i => ?_, fun db key val i => getLog_exec_stable hpb cd db _ i ⟨rfl, rfl⟩,
    fun db key val i => getLog_exec_stable hpb cd db _ i ⟨rfl, rfl⟩⟩
  rw [getLog_of_logsAgree hpb cd hagree, LogStore.run, LogStore.foldl_apply_logs calls hcalls]
  cases lastStoredLog calls i <;> rfl

theorem getLog_last_stored_sorted :
    let calls := [.storeLog ⟨5, 1, 0, [1], []⟩, .set [0] [9], .setUint64 [0, 0] 3,
      .storeLogs [⟨7, 1, 0, [], []⟩, ⟨5, 2, 0, [2], []⟩, ⟨5, 3, 0, [3], []⟩]]
    sortedPebble.Lawful ∧ framedCodec.Lawful ∧ (∀ c ∈ calls, c.isDeleteRange = false) ∧
    Machine.Succeeds (exec sortedPebble framedCodec) sortedPebble.empty calls ∧
    getLog sortedPebble framedCodec (runCalls sortedPebble framedCodec calls) 5 =
      (match lastStoredLog calls 5 with
      | some l => .ok l
      | none => .error .logNotFound) := by
  intro calls
  have hcalls : ∀ c ∈ calls, c.isDeleteRange = false := by decide
  have hok : Machine.Succeeds (exec sortedPebble framedCodec) sortedPebble.empty calls := by decide
  exact ⟨sortedPebble_lawful, framedCodec_lawful, hcalls, hok,
    (getLog_last_stored sortedPebble_lawful framedCodec_lawful calls hcalls hok).1 5⟩

/-- From the empty database, after calls that all return nil, `DeleteRange`
ones with any bounds included, `Get(k)` returns what the last `Set(k, v)` or
`SetUint64(k, u)` wrote and `ErrKeyNotFound` when neither was called on `k`;
`GetUint64(k)` returns `u` when the last of them was `SetUint64(k, u)`. -/
theorem stable_get_last_write {DB B : Type} {pb : Pebble DB B} (hpb : pb.Lawful) (cd : Codec)
    (calls : List Call) (hok : Machine.Succeeds (exec pb cd) pb.empty calls) (k : Bytes) :
    get pb (runCalls pb cd calls) k =
      (match lastStableWrite calls k with
      | some (.set _ v) => .ok v
      | some (.setUint64 _ u) => .ok (uint64ToBytes u)
      | _ => .error .keyNotFound) ∧
    ∀ u, lastStableWrite calls k = some (.setUint64 k u) →
      getUint64 pb (runCalls pb cd calls) k = .ok u := by
  have hagree := runCalls_stableAgrees hpb cd calls hok
  constructor
  · rw [get_of_stableAgrees hpb hagree, LogStore.run, LogStore.foldl_apply_stable]
    rcases lastStableWrite calls k with _ | c
    · rfl
    · cases c <;> rfl
  · intro u hu
    rw [getUint64_of_stableAgrees hpb hagree, LogStore.run, LogStore.foldl_apply_stable, hu]
    simp [Call.stableValue, bytesToUint64, uint64ToBytes]

theorem stable_get_last_write_sorted :
    let calls := [.set [0] [9], .storeLog ⟨0, 1, 0, [], []⟩, .setUint64 [] 7,
      .deleteRange 0 maxUint64, .set [1] [3], .setUint64 [0] 4]
    sortedPebble.Lawful ∧ Machine.Succeeds (exec sortedPebble framedCodec) sortedPebble.empty calls ∧
    get sortedPebble (runCalls sortedPebble framedCodec calls) [] =
      (match lastStableWrite calls [] with
      | some (.set _ v) => .ok v
      | some (.setUint64 _ u) => .ok (uint64ToBytes u)
      | _ => .error .keyNotFound) ∧
    ∀ u, lastStableWrite calls [] = some (.setUint64 [] u) →
      getUint64 sortedPebble (runCalls sortedPebble framedCodec calls) [] = .ok u := by
  intro calls
  have hok : Machine.Succeeds (exec sortedPebble framedCodec) sortedPebble.empty calls := by decide
  exact ⟨sortedPebble_lawful, hok, stable_get_last_write sortedPebble_lawful framedCodec calls hok []⟩

/-- `DeleteRange(mini, MaxUint64)` builds its exclusive end key from `maxi+1`,
which wraps to 0: the range it hands to pebble is empty, and when the call
returns nil every `GetLog` result, that of `MaxUint64` included, is as before. -/
theorem deleteRange_maxUint64_keeps_logs {DB B : Type} {pb : Pebble DB B} (hpb : pb.Lawful)
    (cd : Codec) (db : DB) (mini : UInt64) (h : (deleteRange pb db mini maxUint64).2 = none) (i : UInt64) :
    getLog pb cd (deleteRange pb db mini maxUint64).1 i = getLog pb cd db i := by
  rw [getLog_eq hpb, getLog_eq hpb, deleteRange_find cd hpb h, Call.written, maxUint64_add_one]
  simp [logKey_lt_logKey, UInt64.not_lt_zero]

theorem deleteRange_maxUint64_keeps_last_log :
    let db := runCalls sortedPebble framedCodec [.storeLog ⟨maxUint64, 1, 0, [], []⟩]
    (deleteRange sortedPebble db 0 maxUint64).2 = none ∧
    getLog sortedPebble framedCodec (deleteRange sortedPebble db 0 maxUint64).1 maxUint64 =
      .ok ⟨maxUint64, 1, 0, [], []⟩ := by
  intro db
  have h : (deleteRange sortedPebble db 0 maxUint64).2 = none := by decide
  refine ⟨h, ?_⟩
  rw [deleteRange_maxUint64_keeps_logs sortedPebble_lawful framedCodec db 0 h]
  decide

/-- When `maxi+1` does not wrap, a `DeleteRange` that returns nil removes
exactly the logs with index in `[mini, maxi]` and no stable key. -/
theorem deleteRange_removes_inclusive_range {DB B : Type} {pb : Pebble DB B} (hpb : pb.Lawful)
    (cd : Codec) (db : DB) (mini maxi : UInt64) (hmax : maxi ≠ maxUint64)
    (h : (deleteRange pb db mini maxi).2 = none) :
    (∀ i, mini ≤ i → i ≤ maxi → getLog pb cd (deleteRange pb db mini maxi).1 i = .error .logNotFound) ∧
    (∀ i, ¬(mini ≤ i ∧ i ≤ maxi) → getLog pb cd (deleteRange pb db mini maxi).1 i = getLog pb cd db i) ∧
    (∀ k, get pb (deleteRange pb db mini maxi).1 k = get pb db k) ∧
    (∀ k, getUint64 pb (deleteRange pb db mini maxi).1 k = getUint64 pb db k) := by
  have hlog : ∀ i, pb.find (deleteRange pb db mini maxi).1 (logKey i) =
      if mini ≤ i ∧ i ≤ maxi then none else pb.find db (logKey i) := by
    intro i
    rw [deleteRange_find cd hpb h, Call.written]
    simp only [logKey_between, lt_add_one_iff_le hmax]
  have hconf : ∀ k, pb.find (deleteRange pb db mini maxi).1 (confKey k) = pb.find db (confKey k) := by
    intro k
    rw [deleteRange_find cd hpb h, Call.written, if_neg (confKey_not_between _ _ k)]
  refine ⟨fun i h1 h2 => ?_, fun i hi => ?_, fun k => ?_, fun k => ?_⟩
  · rw [getLog_eq hpb, hlog, if_pos ⟨h1, h2⟩]
  · rw [getLog_eq hpb, getLog_eq hpb, hlog, if_neg hi]
  · rw [get_eq hpb, get_eq hpb, hconf]
  · rw [getUint64_eq hpb, getUint64_eq hpb, hconf]

theorem deleteRange_removes_inclusive_range_sorted :
    let db := runCalls sortedPebble framedCodec
      [.storeLogs [⟨1, 1, 0, [], []⟩, ⟨2, 1, 0, [], []⟩, ⟨3, 1, 0, [], []⟩], .set [0] [1]]
    sortedPebble.Lawful ∧ (2 : UInt64) ≠ maxUint64 ∧ (deleteRange sortedPebble db 1 2).2 = none ∧
    (∀ i, 1 ≤ i → i ≤ 2 →
      getLog sortedPebble framedCodec (deleteRange sortedPebble db 1 2).1 i = .error .logNotFound) ∧
    (∀ i, ¬(1 ≤ i ∧ i ≤ 2) →
      getLog sortedPebble framedCodec (deleteRange sortedPebble db 1 2).1 i = getLog sortedPebble framedCodec db i) ∧
    (∀ k, get sortedPebble (deleteRange sortedPebble db 1 2).1 k = get sortedPebble db k) ∧
    (∀ k, getUint64 sortedPebble (deleteRange sortedPebble db 1 2).1 k = getUint64 sortedPebble db k) := by
  intro db
  have hmax : (2 : UInt64) ≠ maxUint64 := by decide
  have h : (deleteRange sortedPebble db 1 2).2 = none := by decide
  exact ⟨sortedPebble_lawful, hmax, h,
    deleteRange_removes_inclusive_range sortedPebble_lawful framedCodec db 1 2 hmax h⟩

/-- `StoreLogs` is all or nothing: when it returns an error the database is as
it was, so `GetLog`, `FirstIndex` and `LastIndex` answer as before; when it
returns nil each index of the list holds its last log there. -/
theorem storeLogs_all_or_nothing {DB B : Type} {pb : Pebble DB B} {cd : Codec} (hpb : pb.Lawful)
    (hcd : cd.Lawful) (db : DB) (logs : List Log) :
    ((storeLogs pb cd db logs).2 ≠ none →
      (∀ i, getLog pb cd (storeLogs pb cd db logs).1 i = getLog pb cd db i) ∧
      firstIndex pb (storeLogs pb cd db logs).1 = firstIndex pb db ∧
      lastIndex pb (storeLogs pb cd db logs).1 = lastIndex pb db) ∧
    ((storeLogs pb cd db logs).2 = none →
      ∀ i, getLog pb cd (storeLogs pb cd db logs).1 i =
        match logs.reverse.find? (fun l => l.index = i) with
        | some l => .ok l
        | none => getLog pb cd db i) := by
  constructor
  · intro h
    obtain ⟨e, he⟩ := Option.ne_none_iff_exists'.mp h
    have hdb : (storeLogs pb cd db logs).1 = db := exec_error cd hpb (c := .storeLogs logs) he
    rw [hdb]
    exact ⟨fun i => rfl, rfl, rfl⟩
  · intro h i
    rw [getLog_eq hpb, storeLogs_find cd hpb h, Call.written]
    simp only [logKey_inj]
    cases hf : logs.reverse.find? (fun l => l.index = i) with
    | none => rw [getLog_eq hpb]
    | some l =>
      have hmem : l ∈ (Call.storeLogs logs).storedLogs := List.mem_reverse.mp (List.mem_of_find?_eq_some hf)
      obtain ⟨v, hv⟩ := exec_encode cd (c := .storeLogs logs) h l hmem
      simp [hv, Except.toOption, hcd.decode_encode l v hv]

theorem storeLogs_all_or_nothing_sorted :
    let db := runCalls sortedPebble framedCodec [.storeLog ⟨4, 1, 0, [], []⟩]
    let logs : List Log := [⟨4, 2, 0, [], []⟩, ⟨6, 2, 0, [], []⟩, ⟨4, 3, 0, [], []⟩]
    sortedPebble.Lawful ∧ framedCodec.Lawful ∧
    ((storeLogs sortedPebble framedCodec db logs).2 ≠ none →
      (∀ i, getLog sortedPebble framedCodec (storeLogs sortedPebble framedCodec db logs).1 i =
        getLog sortedPebble framedCodec db i) ∧
      firstIndex sortedPebble (storeLogs sortedPebble framedCodec db logs).1 = firstIndex sortedPebble db ∧
      lastIndex sortedPebble (storeLogs sortedPebble framedCodec db logs).1 = lastIndex sortedPebble db) ∧
    ((storeLogs sortedPebble framedCodec db logs).2 = none →
      ∀ i, getLog sortedPebble framedCodec (storeLogs sortedPebble framedCodec db logs).1 i =
        match logs.reverse.find? (fun l => l.index = i) with
        | some l => .ok l
        | none => getLog sortedPebble framedCodec db i) :=
  ⟨sortedPebble_lawful, framedCodec_lawful,
    storeLogs_all_or_nothing sortedPebble_lawful framedCodec_lawful _ _⟩

/-- Successful runs whose `DeleteRange` calls do not wrap refine the abstract
store: every `GetLog` and every `Get` answers as `LogStore.run` says. -/
theorem runCalls_refines_logStore {DB B : Type} {pb : Pebble DB B} {cd : Codec} (hpb : pb.Lawful)
    (hcd : cd.Lawful) (calls : List Call) (hwrap : ∀ c ∈ calls, c.noWrap = true)
    (hok : Machine.Succeeds (exec pb cd) pb.empty calls) :
    (∀ i, getLog pb cd (runCalls pb cd calls) i =
      match (LogStore.run calls).logs i with
      | some l => .ok l
      | none => .error .logNotFound) ∧
    (∀ k, get pb (runCalls pb cd calls) k =
      match (LogStore.run calls).stable k with
      | some v => .ok v
      | none => .error .keyNotFound) :=
  ⟨getLog_of_logsAgree hpb cd (runCalls_logsAgree hpb hcd calls hwrap hok),
    get_of_stableAgrees hpb (runCalls_stableAgrees hpb cd calls hok)⟩

theorem runCalls_refines_logStore_sorted :
    let calls := [.storeLogs [⟨1, 1, 0, [], []⟩, ⟨2, 1, 0, [], []⟩], .deleteRange 2 5, .set [] [1]]
    sortedPebble.Lawful ∧ framedCodec.Lawful ∧ (∀ c ∈ calls, c.noWrap = true) ∧
    Machine.Succeeds (exec sortedPebble framedCodec) sortedPebble.empty calls ∧
    (∀ i, getLog sortedPebble framedCodec (runCalls sortedPebble framedCodec calls) i =
      match (LogStore.run calls).logs i with
      | some l => .ok l
      | none => .error .logNotFound) ∧
    (∀ k, get sortedPebble (runCalls sortedPebble framedCodec calls) k =
      match (LogStore.run calls).stable k with
      | some v => .ok v
      | none => .error .keyNotFound) := by
  intro calls
  have hwrap : ∀ c ∈ calls, c.noWrap = true := by decide
  have hok : Machine.Succeeds (exec sortedPebble framedCodec) sortedPebble.empty calls := by decide
  exact ⟨sortedPebble_lawful, framedCodec_lawful, hwrap, hok,
    runCalls_refines_logStore sortedPebble_lawful framedCodec_lawful calls hwrap hok⟩

end DistributedKv.RaftPebble
