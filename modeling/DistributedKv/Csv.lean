import DistributedKv.Utf8

/-!
# Go's `encoding/csv` with its default settings

The writer and the reader as `NewWriter` and `NewReader` configure them:
comma `,`, no `UseCRLF`, no comment character, no lazy quotes, no trimming
of leading space, and `FieldsPerRecord` fixed by the first record.

`Reader.readLine` is a function of the unread input alone: it splits at
`\n`, rewrites a `\r\n` that ends a line to `\n` and drops a `\r` that ends
the input. So the reader is modelled as that normalisation of the whole
input followed by one pass of a byte automaton whose states are the cases of
`readRecord`: the start of a record (where blank lines are skipped), the
start of a field after a comma, an unquoted field, a quoted field, and a
quote inside a quoted field. The positions a `ParseError` carries are left out.
-/

set_option autoImplicit false

namespace DistributedKv.Csv

open DistributedKv.BigEndian (Bytes)

/-- `Writer.fieldNeedsQuotes` for the comma `,`. -/
def fieldNeedsQuotes (field : Bytes) : Bool :=
  if field = [] then false
  else if field = [92, 46] then true
  else if field.any (fun c => c = 10 || c = 13 || c = 34 || c = 44) then true
  else Utf8.isSpace (Utf8.decodeRune field).1

/-- The body of a quoted field as `Writer.Write` emits it: a quote is
doubled; without `UseCRLF`, `\r` and `\n` are copied. -/
def quoteField : Bytes → Bytes
  | [] => []
  | 34::t => 34::34::quoteField t
  | 13::t => 13::quoteField t
  | 10::t => 10::quoteField t
  | c::t => c::quoteField t

def writeField (field : Bytes) : Bytes :=
  if fieldNeedsQuotes field then 34::quoteField field++[34] else field

/-- `Writer.Write` of one record: its fields separated by commas, then `\n`. -/
def write (record : List Bytes) : Bytes :=
  List.intercalate [44] (record.map writeField)++[10]

inductive ParseErr where
  | bareQuote
  | quote
  | fieldCount
  deriving DecidableEq, Repr

/-- `readLine`'s rewriting, over the whole input. -/
def normalize : Bytes → Bytes
  | [] => []
  | [13] => []
  | 13::10::t => 10::normalize t
  | c::t => c::normalize t

inductive Pos where
  | recordStart
  | fieldStart
  | unquoted
  | quoted
  | quote
  deriving DecidableEq, Repr

structure Reader where
  pos : Pos
  field : Bytes
  record : List Bytes
  fieldsPerRecord : ℕ
  records : List (List Bytes)
  err : Option ParseErr
  deriving DecidableEq, Repr

def Reader.init : Reader := ⟨.recordStart, [], [], 0, [], none⟩

namespace Reader

def endField (r : Reader) : Reader := { r with field := [], record := r.record++[r.field] }

/-- The record is complete: the field count is checked against the first
record's, which the first record fixes. -/
def endRecord (r : Reader) : Reader :=
  if 0 < r.fieldsPerRecord ∧ r.record.length ≠ r.fieldsPerRecord then
    { r with err := some .fieldCount }
  else
    { r with
      pos := .recordStart
      record := []
      records := r.records++[r.record]
      fieldsPerRecord := if r.fieldsPerRecord = 0 then r.record.length else r.fieldsPerRecord }

def startField (r : Reader) (c : UInt8) : Reader :=
  if c = 34 then { r with pos := .quoted }
  else if c = 44 then { r.endField with pos := .fieldStart }
  else { r with pos := .unquoted, field := [c] }

def stepAt (r : Reader) (c : UInt8) : Reader :=
  match r.pos with
  | .recordStart => if c = 10 then r else r.startField c
  | .fieldStart => if c = 10 then r.endField.endRecord else r.startField c
  | .unquoted =>
    if c = 44 then { r.endField with pos := .fieldStart }
    else if c = 10 then r.endField.endRecord
    else if c = 34 then { r with err := some .bareQuote }
    else { r with field := r.field++[c] }
  | .quoted => if c = 34 then { r with pos := .quote } else { r with field := r.field++[c] }
  | .quote =>
    if c = 34 then { r with pos := .quoted, field := r.field++[34] }
    else if c = 44 then { r.endField with pos := .fieldStart }
    else if c = 10 then r.endField.endRecord
    else { r with err := some .quote }

def step (r : Reader) (c : UInt8) : Reader :=
  if r.err.isSome then r else r.stepAt c

def finish (r : Reader) : Reader :=
  if r.err.isSome then r else
  match r.pos with
  | .recordStart => r
  | .fieldStart | .unquoted | .quote => r.endField.endRecord
  | .quoted => { r with err := some .quote }

end Reader

/-- What successive calls of `Reader.Read` on `input` return: the records, in
order, up to the first error, and that error (`none` when the reads end at
`io.EOF`). -/
def readAll (input : Bytes) : List (List Bytes) × Option ParseErr :=
  let r := ((normalize input).foldl Reader.step Reader.init).finish
  (r.records, r.err)

end DistributedKv.Csv
