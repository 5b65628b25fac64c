/-
  Reading a configuration.

  A configuration is written as a flat JSON document: an object with some of the keys
  of `Field`, in any order and none twice, or an array of values for the fields in
  their order. Missing fields keep their defaults; page counts must fit 32 bits, and
  the number of workers is `null` or must fit 64 bits. What can be read is then
  checked (`Config.parse`).

  `Config.ofText?` is the lenient way in: blanks at both ends are taken off, and
  whatever fails is no configuration.

  The text of a parse error says what could not be done, to parse the text or to read the
  file, and no more: the detail that a JSON reader or a file system would add after it,
  such as a line and a column, is left out.
-/
import PathSieve.Config.Basic
import PathSieve.Json.Flat
import PathSieve.Text.Blank
import PathSieve.Text.Utf8

namespace PathSieve.Config

open PathSieve.Json

/-- The fields of a configuration. -/
inductive Field where
  | initialPages
  | maxPages
  | parallelism
  deriving DecidableEq, Repr

namespace Field

/-- The fields in the order in which an array gives them. -/
def all : List Field := [.initialPages, .maxPages, .parallelism]

/-- The key of a field. -/
def key : Field → String
  | .initialPages => "initialMemoryPages"
  | .maxPages => "maxMemoryPages"
  | .parallelism => "parallelism"

/-- The field with a given key. -/
def ofKey? (cs : List Char) : Option Field :=
  all.find? fun f => f.key.toList == cs

theorem ofKey?_key (f : Field) : ofKey? f.key.toList = some f := by
  cases f <;> decide

end Field

/-- A value in the range of 32-bit words. -/
def word32? : Scalar → Option UInt32
  | .number n => if n < UInt32.size then some (UInt32.ofNat n) else none
  | .null => none

/-- No value, or one in the range of 64-bit words. -/
def word64? : Scalar → Option (Option UInt64)
  | .number n => if n < UInt64.size then some (some (UInt64.ofNat n)) else none
  | .null => some none

/-- The configuration with one field set, if the value suits the field. -/
def set? (c : Config) (a : Field × Scalar) : Option Config :=
  match a.1 with
  | .initialPages => (word32? a.2).map fun n => { c with initialPages := n }
  | .maxPages => (word32? a.2).map fun n => { c with maxPages := n }
  | .parallelism => (word64? a.2).map fun n => { c with parallelism := n }

/-- The defaults with some fields set, each at most once. -/
def ofAssignments? (as : List (Field × Scalar)) : Option Config :=
  if (as.map Prod.fst).Nodup then as.foldlM set? {} else none

/-- The fields that a document sets, with their values. -/
def assignments? : Flat → Option (List (Field × Scalar))
  | .object ms => ms.mapM fun m => (Field.ofKey? m.1).map fun f => (f, m.2)
  | .array ss => if ss.length ≤ Field.all.length then some (Field.all.zip ss) else none

/-- The configuration that a text writes down, usable or not. -/
def read? (text : String) : Option Config := do
  let document ← Flat.ofText? text
  let assignments ← assignments? document
  ofAssignments? assignments

/-- The usable configuration that a text writes down. -/
def parse (text : String) : Except Error Config :=
  match read? text with
  | none => .error (.config (.parse "Failed to parse config JSON"))
  | some c => c.check.map fun _ => c

/-- The usable configuration that the content of a file writes down; `none` stands for a
    file that is not there. -/
def load (path : String) (content : Option (List UInt8)) : Except Error Config :=
  match content with
  | none => .error (.config (.fileNotFound path))
  | some bytes =>
    match Text.Utf8.decode? bytes with
    | none => .error (.config (.parse "Failed to read config file: not UTF-8"))
    | some text => parse text

/-- The usable configuration that a text writes down between blanks, if it does. -/
def ofText? (text : String) : Option Config :=
  (parse (String.ofList (Text.trim text.toList))).toOption

end PathSieve.Config
