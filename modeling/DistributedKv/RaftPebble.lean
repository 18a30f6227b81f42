import DistributedKv.PebbleDB
import DistributedKv.Machine

/-!
# The raft log and stable store over pebble

`PebbleKVStore` of `internal/raftpebble` keeps raft's `LogStore` and
`StableStore` in one pebble database: a log entry under `prefixLog` followed
by its big-endian index, a stable key under `prefixConf` followed by the key.
The msgpack codec of `raft.Log` is a parameter, with the one law the store
relies on: decoding inverts encoding. The errors of `Iterator.Close` and of a
value's closer, which pebble does not return on a healthy database, are left out.

A run of the store is a sequence of the calls that write (`Call`), each
taken by `exec` to the database it leaves and the error it returns.
-/

set_option autoImplicit false

namespace DistributedKv.RaftPebble

open DistributedKv.BigEndian
open DistributedKv.Types DistributedKv.PebbleDB

structure Codec where
  encode : Log → Except Error Bytes
  decode : Bytes → Except Error Log

structure Codec.Lawful (cd : Codec) : Prop where
  decode_encode : ∀ l b, cd.encode l = .ok b → cd.decode b = .ok l

def prefixLog : Bytes := [0x00]

def prefixConf : Bytes := [0x01]

def uint64ToBytes (u : UInt64) : Bytes := putUint64 u

/-- `binary.BigEndian.Uint64` panics on fewer than eight bytes. -/
def bytesToUint64 (b : Bytes) : Except Error UInt64 :=
  match uint64 b with
  | some u => .ok u
  | none => .error (.panic (.new "index out of range"))

def firstError (err1 err2 : Option Error) : Option Error :=
  match err1 with
  | some _ => err1
  | none => err2

/-- `append(prefixLog, uint64ToBytes(index)...)`. -/
def logKey (index : UInt64) : Bytes := prefixLog++uint64ToBytes index

/-- `append(prefixConf, key...)`. -/
def confKey (key : Bytes) : Bytes := prefixConf++key

def maxUint64 : UInt64 := 0xFFFFFFFFFFFFFFFF

section Store

variable {DB B : Type} (pb : Pebble DB B) (cd : Codec)

/-- The key the iterator over `[prefixLog, prefixConf)` visits first, read as an index. -/
def firstIndex (db : DB) : Except Error UInt64 :=
  match pb.newIter db (some prefixLog) (some prefixConf) with
  | [] => .ok 0
  | kv::_ => bytesToUint64 (kv.1.drop prefixLog.length)

def lastIndex (db : DB) : Except Error UInt64 :=
  match (pb.newIter db (some prefixLog) (some prefixConf)).getLast? with
  | none => .ok 0
  | some kv => bytesToUint64 (kv.1.drop prefixLog.length)

def getLog (db : DB) (index : UInt64) : Except Error Log :=
  match pb.get db (logKey index) with
  | .error .pebbleNotFound => .error .logNotFound
  | .error e => .error e
  | .ok val => cd.decode val

def storeLog (db : DB) (log : Log) : DB × Option Error :=
  match cd.encode log with
  | .error e => (db, some e)
  | .ok val => writeResult db (pb.set db (logKey log.index) val)

/-- The loop of `StoreLogs`: the batch as it stands when the loop ends, and the
error it returned early with. -/
def storeLogsLoop (wb : B) : List Log → B × Option Error
  | [] => (wb, none)
  | log::logs =>
    match cd.encode log with
    | .error e => (wb, some e)
    | .ok val =>
      match pb.batchSet wb (logKey log.index) val with
      | .error e => (wb, some e)
      | .ok wb' => storeLogsLoop wb' logs

/-- The deferred `wb.Close` runs on every path, its error after the body's. -/
def storeLogs (db : DB) (logs : List Log) : DB × Option Error :=
  match storeLogsLoop pb cd (pb.newBatch db) logs with
  | (wb, some e) => (db, firstError (some e) (pb.batchClose wb))
  | (wb, none) =>
    let r := writeResult db (pb.apply db wb)
    (r.1, firstError r.2 (pb.batchClose wb))

def deleteRange (db : DB) (mini maxi : UInt64) : DB × Option Error :=
  let fk := prefixLog++uint64ToBytes mini
  let lk := prefixLog++uint64ToBytes (maxi+1)
  writeResult db (pb.deleteRange db fk lk)

def set (db : DB) (key val : Bytes) : DB × Option Error :=
  writeResult db (pb.set db (confKey key) val)

/-- `op` receives the value, `nil` when the key is absent. -/
def getValue {α : Type} (db : DB) (key : Bytes) (op : Option Bytes → Except Error α) :
    Except Error α :=
  match pb.get db key with
  | .error .pebbleNotFound => op none
  | .error e => .error e
  | .ok val => op (some val)

def get (db : DB) (key : Bytes) : Except Error Bytes :=
  getValue pb db (confKey key) fun val =>
    match val with
    | none => .error .keyNotFound
    | some val => .ok val

def setUint64 (db : DB) (key : Bytes) (val : UInt64) : DB × Option Error :=
  set pb db key (uint64ToBytes val)

def getUint64 (db : DB) (key : Bytes) : Except Error UInt64 :=
  getValue pb db (confKey key) fun val =>
    match val with
    | none => .error .keyNotFound
    | some val => bytesToUint64 val

end Store

inductive Call where
  | storeLog (log : Log)
  | storeLogs (logs : List Log)
  | deleteRange (mini maxi : UInt64)
  | set (key val : Bytes)
  | setUint64 (key : Bytes) (val : UInt64)
  deriving DecidableEq, Repr

section Exec

variable {DB B : Type} (pb : Pebble DB B) (cd : Codec)

def exec (db : DB) : Call → DB × Option Error
  | .storeLog log => storeLog pb cd db log
  | .storeLogs logs => storeLogs pb cd db logs
  | .deleteRange mini maxi => deleteRange pb db mini maxi
  | .set key val => set pb db key val
  | .setUint64 key val => setUint64 pb db key val

def runCalls (calls : List Call) : DB := Machine.run (exec pb cd) pb.empty calls

end Exec

def framedCodec : Codec where
  encode log :=
    if log.data.length < 2^64 then
      .ok (putUint64 log.index++putUint64 log.term++[log.type]++
        putUint64 (UInt64.ofNat log.data.length)++log.data++log.extensions)
    else .error (.new "data too long")
  decode b :=
    match uint64 b, uint64 (b.drop 8), b.drop 16 with
    | some index, some term, type::rest =>
      match uint64 rest with
      | some n => .ok ⟨index, term, type, (rest.drop 8).take n.toNat, (rest.drop 8).drop n.toNat⟩
      | none => .error (.new "short frame")
    | _, _, _ => .error (.new "short frame")

theorem framedCodec_lawful : framedCodec.Lawful where
  decode_encode l b h := by
    obtain ⟨index, term, type, data, ext⟩ := l
    simp only [framedCodec] at h
    split_ifs at h with hlen
    cases h
    have hn : (UInt64.ofNat data.length).toNat = data.length := UInt64.toNat_ofNat_of_lt' hlen
    have h8 : ∀ u : UInt64, 8 ≤ (putUint64 u).length := fun u => le_of_eq (length_putUint64 u).symm
    have h16 : 16 = 8+8 := rfl
    simp only [framedCodec, List.append_assoc, List.singleton_append, uint64_append _ _ (h8 _),
      uint64_putUint64, h16, ← List.drop_drop, List.drop_left' (length_putUint64 _)]
    simp [uint64_append _ _ (h8 _), hn]

end DistributedKv.RaftPebble
