import DistributedKv.Csv

/-!
# Values the stores pass around

Go `error` values, `raft.Log`, the protobuf messages of `dkv.v1`, raft's
server identities, and Go's `map[string]string`. Go strings and byte slices
are both `Bytes`; a string's conversion to `[]byte` and back copies bytes.
-/

set_option autoImplicit false

namespace DistributedKv.Types

open DistributedKv.BigEndian (Bytes)

/-- A Go `error`. The sentinels the code compares by identity are
constructors of their own; `errors.New` and `fmt.Errorf` values carry their
text or arguments; `external` is any error a package outside the repository
returns. A panic is the outcome `panic` with the value it was given; a
runtime error such as a failed bounds check is `new` with its text. -/
inductive Error where
  | pebbleNotFound
  | logNotFound
  | keyNotFound
  | csv (err : Csv.ParseErr)
  | new (text : String)
  | removingNode (id addr : Bytes) (cause : Error)
  | panic (value : Error)
  | external (code : ℕ)
  deriving DecidableEq, Repr

/-- `raft.Log`. Its `AppendedAt` time is left out: no modelled function reads it. -/
structure Log where
  index : UInt64
  term : UInt64
  type : UInt8
  data : Bytes
  extensions : Bytes
  deriving DecidableEq, Repr

structure SetRequest where
  key : Bytes
  value : Bytes
  deriving DecidableEq, Repr

structure DeleteRequest where
  key : Bytes
  deriving DecidableEq, Repr

inductive CommandCase where
  | set (set : SetRequest)
  | delete (delete : DeleteRequest)
  deriving DecidableEq, Repr

/-- `dkv.v1.Command`; `none` is a command with no oneof case set. -/
structure Command where
  command : Option CommandCase
  deriving DecidableEq, Repr

/-- Every string field holds UTF-8, as proto3 requires of `string`. -/
def Command.ValidUtf8 (c : Command) : Bool :=
  match c.command with
  | some (.set req) => Utf8.valid req.key && Utf8.valid req.value
  | some (.delete req) => Utf8.valid req.key
  | none => true

abbrev ServerID := Bytes
abbrev ServerAddress := Bytes

abbrev GoMap := AList (fun _ : Bytes => Bytes)

end DistributedKv.Types
