import DistributedKv.Persisted
import DistributedKv.Overwrite

/-!
# The replicated state machine

`FSM` of `internal/store/distributed` applies raft log entries to a
`Storer`, snapshots it with `Dump` and restores it from a CSV stream; on
the leader side `Store.apply` marshals a command and hands it to raft. The
storer is a parameter, lawful when it behaves as a map (`Set` inserts,
`Delete` erases, `Clear` empties, `Dump` returns the contents); the
persisted store over a pebble whose writes succeed is one. Protobuf and the
raft snapshot sink are parameters too: `Unmarshal` inverts `Marshal`, which
fails exactly on strings that are not UTF-8.

A Go `map` is ranged over in an order of the runtime's choosing, so
`Persist` is given the order as a list of the map's bindings.
-/

set_option autoImplicit false

namespace DistributedKv.Fsm

open DistributedKv.BigEndian DistributedKv.SortedScan
open DistributedKv.Types DistributedKv.PebbleDB

/-- The methods of `Storer`. `Clear` returns nothing, but may panic. -/
structure Storer (σ : Type) where
  get : σ → Bytes → Except Error Bytes
  delete : σ → Bytes → σ × Option Error
  set : σ → Bytes → Bytes → σ × Option Error
  dump : σ → GoMap
  clear : σ → σ × Option Error

variable {σ : Type}

def Storer.contents (st : Storer σ) (s : σ) (k : Bytes) : Option Bytes := (st.get s k).toOption

structure Storer.Lawful (st : Storer σ) : Prop where
  set_ok : ∀ s k v, (st.set s k v).2 = none
  contents_set : ∀ s k v k', st.contents (st.set s k v).1 k' = if k' = k then some v else st.contents s k'
  delete_ok : ∀ s k, (st.delete s k).2 = none
  contents_delete : ∀ s k k', st.contents (st.delete s k).1 k' = if k' = k then none else st.contents s k'
  clear_ok : ∀ s, (st.clear s).2 = none
  contents_clear : ∀ s k, st.contents (st.clear s).1 k = none
  dump_lookup : ∀ s k, (st.dump s).lookup k = st.contents s k

theorem Storer.Lawful.set_eq {st : Storer σ} (hst : st.Lawful) (s : σ) (k v : Bytes) :
    ∃ s1, st.set s k v = (s1, none) ∧ ∀ x, st.contents s1 x = if x = k then some v else st.contents s x :=
  ⟨_, Prod.ext rfl (hst.set_ok s k v), hst.contents_set s k v⟩

theorem Storer.Lawful.clear_eq {st : Storer σ} (hst : st.Lawful) (s : σ) :
    ∃ s0, st.clear s = (s0, none) ∧ ∀ x, st.contents s0 x = none :=
  ⟨_, Prod.ext rfl (hst.clear_ok s), hst.contents_clear s⟩

def persistedStorer {DB B : Type} (pb : Pebble DB B) : Storer DB where
  get := Persisted.get pb
  delete := Persisted.delete pb
  set := Persisted.set pb
  dump := Persisted.dump pb
  clear := Persisted.clear pb

theorem persistedStorer_contents_empty {DB B : Type} {pb : Pebble DB B} (hpb : pb.Lawful) (k : Bytes) :
    (persistedStorer pb).contents pb.empty k = none := by
  show (pb.get pb.empty k).toOption = none
  rw [hpb.get_empty k]
  rfl

theorem clearLoop_ok {DB B : Type} {pb : Pebble DB B} (hdel : ∀ db k, ∃ db', pb.delete db k = .ok db')
    (db : DB) (l : List (Bytes × Bytes)) : (Persisted.clearLoop pb db l).2 = none := by
  induction l generalizing db with
  | nil => rfl
  | cons kv l ih =>
    obtain ⟨db', hd⟩ := hdel db kv.1
    rw [Persisted.clearLoop, hd]
    exact ih db'

theorem persistedStorer_lawful {DB B : Type} {pb : Pebble DB B} (hpb : pb.Lawful)
    (hset : ∀ db k v, ∃ db', pb.set db k v = .ok db') (hdel : ∀ db k, ∃ db', pb.delete db k = .ok db') :
    (persistedStorer pb).Lawful where
  set_ok db k v := by
    obtain ⟨db', h⟩ := hset db k v
    simp [persistedStorer, Persisted.set, h]
  contents_set db k v k' := by
    obtain ⟨db', h⟩ := hset db k v
    simp only [persistedStorer, Persisted.set, h, writeResult_ok]
    exact hpb.find_set h k'
  delete_ok db k := by
    obtain ⟨db', h⟩ := hdel db k
    simp [persistedStorer, Persisted.delete, h]
  contents_delete db k k' := by
    obtain ⟨db', h⟩ := hdel db k
    simp only [persistedStorer, Persisted.delete, h, writeResult_ok]
    exact hpb.find_delete h k'
  clear_ok db := clearLoop_ok hdel db _
  contents_clear db k := Persisted.clear_find hpb (clearLoop_ok hdel db _) k
  dump_lookup db k := Persisted.dump_lookup hpb db k

theorem sortedPebble_persistedStorer_lawful : (persistedStorer sortedPebble).Lawful :=
  persistedStorer_lawful sortedPebble_lawful (fun _ _ _ => ⟨_, rfl⟩) (fun _ _ => ⟨_, rfl⟩)

/-- `proto.Marshal` and `proto.Unmarshal` on `dkvv1.Command`. -/
structure ProtoCodec where
  marshal : Command → Except Error Bytes
  unmarshal : Bytes → Except Error Command

structure ProtoCodec.Lawful (pc : ProtoCodec) : Prop where
  unmarshal_marshal : ∀ c b, pc.marshal c = .ok b → pc.unmarshal b = .ok c
  marshal_ok_iff : ∀ c, (∃ b, pc.marshal c = .ok b) ↔ c.ValidUtf8 = true

section Apply

variable (st : Storer σ) (pc : ProtoCodec)

/-- `FSM.Apply`: the response is the storer's error or one of its own. -/
def apply (s : σ) (l : Log) : σ × Option Error :=
  match pc.unmarshal l.data with
  | .error e => (s, some e)
  | .ok cmd =>
    match cmd.command with
    | some (.set c) => st.set s c.key c.value
    | some (.delete c) => st.delete s c.key
    | none => (s, some (.new "unknown command"))

end Apply

/-- What `Store.apply` hands to raft: forwarded to the leader, or applied here. -/
inductive Submission where
  | forward (id : ServerID) (addr : ServerAddress) (payload : Bytes)
  | apply (payload : Bytes)
  deriving DecidableEq, Repr

def Submission.payload : Submission → Bytes
  | .forward _ _ payload => payload
  | .apply payload => payload

section Store

variable (pc : ProtoCodec) (raftID : ServerID)

/-- `Store.apply` up to the submission, given what `LeaderWithID` returns. -/
def storeApply (leader : ServerAddress × ServerID) (req : Command) : Except Error Submission :=
  match pc.marshal req with
  | .error e => .error e
  | .ok b =>
    if leader.1 = [] ∨ leader.2 = [] then .error (.new "no leader")
    else if leader.2 ≠ raftID then .ok (.forward leader.2 leader.1 b)
    else .ok (.apply b)

def storeSet (leader : ServerAddress × ServerID) (key value : Bytes) : Except Error Submission :=
  storeApply pc raftID leader ⟨some (.set ⟨key, value⟩)⟩

def storeDelete (leader : ServerAddress × ServerID) (key : Bytes) : Except Error Submission :=
  storeApply pc raftID leader ⟨some (.delete ⟨key⟩)⟩

end Store

/-- `Store.Shutdown`, given what `raft.Shutdown().Error()` returned (`none`
when the store has no raft left): on an error it returns before `Clear`
runs, else it clears the storer. -/
def storeShutdown (st : Storer σ) (raftErr : Option Error) (s : σ) : σ × Option Error :=
  match raftErr with
  | some e => (s, some e)
  | none => st.clear s

inductive Request where
  | set (key value : Bytes)
  | delete (key : Bytes)
  deriving DecidableEq, Repr

def Request.command : Request → Command
  | .set key value => ⟨some (.set ⟨key, value⟩)⟩
  | .delete key => ⟨some (.delete ⟨key⟩)⟩

def Request.send (pc : ProtoCodec) (raftID : ServerID) (leader : ServerAddress × ServerID) :
    Request → Except Error Submission
  | .set key value => storeSet pc raftID leader key value
  | .delete key => storeDelete pc raftID leader key

def Request.write : Request → Bytes × Option Bytes
  | .set key value => (key, some value)
  | .delete key => (key, none)

structure SnapshotSink (κ : Type) where
  write : κ → Bytes → κ × Option Error
  close : κ → κ × Option Error
  cancel : κ → κ × Option Error

def GoMap.pairs (m : GoMap) : List (Bytes × Bytes) := m.entries.map (fun e => (e.1, e.2))

/-- `FSM.Snapshot`: the map `Dump` returns. -/
def snapshot (st : Storer σ) (s : σ) : GoMap := st.dump s

/-- `fsmSnapshot.Persist`, ranging over the map in the order `order`. The CSV
writer's buffered output reaches the sink as one stream. When `Cancel`
succeeds its `nil` overwrites the error, which `Persist` then does not return. -/
def persist {κ : Type} (sink : SnapshotSink κ) (order : List (Bytes × Bytes)) (k : κ) : κ × Option Error :=
  let r :=
    match sink.write k (order.flatMap fun kv => Csv.write [kv.1, kv.2]) with
    | (k, some e) => (k, some e)
    | (k, none) => sink.close k
  match r.2 with
  | none => r
  | some _ =>
    match sink.cancel r.1 with
    | (k, some e) => (k, some (.panic e))
    | (k, none) => (k, none)

section Restore

variable (st : Storer σ)

/-- The loop of `FSM.Restore` over the records the reader returns before
`readErr`; a record of fewer than two fields fails the bounds check. -/
def restoreLoop (s : σ) (readErr : Option Csv.ParseErr) : List (List Bytes) → σ × Option Error
  | [] =>
    match readErr with
    | none => (s, none)
    | some e => (s, some (.csv e))
  | record::records =>
    match record with
    | key::value::_ =>
      match st.set s key value with
      | (s, some e) => (s, some e)
      | (s, none) => restoreLoop s readErr records
    | _ => (s, some (.panic (.new "index out of range")))

def restore (s : σ) (snapshot : Bytes) : σ × Option Error :=
  match st.clear s with
  | (s, some e) => (s, some e)
  | (s, none) =>
    let r := Csv.readAll snapshot
    restoreLoop st s r.2 r.1

end Restore

def escapeKey : Bytes → Bytes
  | [] => [0]
  | b::t => 1::b::escapeKey t

def unescapeKey : Bytes → Option (Bytes × Bytes)
  | 0::rest => some ([], rest)
  | 1::b::rest => (unescapeKey rest).map fun r => (b::r.1, r.2)
  | _ => none

theorem unescapeKey_escapeKey (key t : Bytes) : unescapeKey (escapeKey key++t) = some (key, t) := by
  induction key with
  | nil => rfl
  | cons b key ih => simp [escapeKey, unescapeKey, ih]

def framedProto : ProtoCodec where
  marshal c :=
    if c.ValidUtf8 then
      match c.command with
      | none => .ok []
      | some (.set req) => .ok (1::escapeKey req.key++req.value)
      | some (.delete req) => .ok (2::req.key)
    else .error (.new "string field contains invalid UTF-8")
  unmarshal
    | [] => .ok ⟨none⟩
    | 1::rest =>
      match unescapeKey rest with
      | some (key, value) => .ok ⟨some (.set ⟨key, value⟩)⟩
      | none => .error (.new "cannot parse invalid wire-format data")
    | 2::key => .ok ⟨some (.delete ⟨key⟩)⟩
    | _ => .error (.new "cannot parse invalid wire-format data")

theorem framedProto_lawful : framedProto.Lawful where
  unmarshal_marshal c b h := by
    obtain ⟨cmd⟩ := c
    simp only [framedProto] at h
    split_ifs at h with hv
    rcases cmd with _ | (req | req)
    · cases h
      rfl
    · cases h
      simp [framedProto, unescapeKey_escapeKey]
    · cases h
      rfl
  marshal_ok_iff c := by
    obtain ⟨cmd⟩ := c
    by_cases hv : Command.ValidUtf8 ⟨cmd⟩ = true
    · rcases cmd with _ | (req | req) <;> simp [framedProto, hv]
    · simp [framedProto, hv]

def bufferSink : SnapshotSink Bytes where
  write k b := (k++b, none)
  close k := (k, none)
  cancel k := (k, none)

end DistributedKv.Fsm
