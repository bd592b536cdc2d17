import EntityQuery.Json.Basic
import EntityQuery.Value.Basic

/-!
The stored form of values. A number that is not finite has none and becomes null.
-/

namespace EntityQuery.Value

def toJson : Value → Json
  | .int i => .obj [("Int", .int i.toInt)]
  | .float x => .obj [("Float", if x.isNaN || x.isInfinite then .null else .float x)]
  | .string s => .obj [("String", .str s)]
  | .boolean b => .obj [("Boolean", .bool b)]
  | .json j => .obj [("Json", j)]
  | .uuid u => .obj [("Uuid", .str u.text)]
  | .bytes bs => .obj [("Bytes", .arr (bs.map fun b => .int b.toNat))]
  | .date d => .obj [("Date", .str d.text)]
  | .timestamp t => .obj [("Timestamp", .str t.zuluText)]
  | .null => .str "Null"

/-- A signed number of 64 bits. -/
def readInt? (j : Json) : Option Int64 := j.int?.bind int64?

def byte? (j : Json) : Option UInt8 := do
  let n ← j.nat?
  if n < 256 then some (UInt8.ofNat n) else none

/-- A double, written with or without a fraction. -/
def double? : Json → Option Binary64
  | .float x => some x
  | .int i => some (Binary64.round (decide (i < 0)) i.natAbs 1)
  | _ => none

/-- The value of an alternative with its content. -/
def ofTagged? (name : String) (content : Json) : Option Value :=
  match name with
  | "Int" => (readInt? content).map .int
  | "Float" => (double? content).map .float
  | "String" => content.str?.map .string
  | "Boolean" => content.bool?.map .boolean
  | "Json" => some (.json content)
  | "Uuid" => (content.str?.bind Uuid.ofText?).map .uuid
  | "Bytes" => (content.list? byte?).map .bytes
  | "Date" => (content.str?.bind Date.ofText?).map .date
  | "Timestamp" => (content.str?.bind Timestamp.ofText?).map .timestamp
  | _ => none

def ofJson? (j : Json) : Option Value :=
  match j.tagged? with
  | some ("Null", content) => if Json.isBare content then some .null else none
  | some (name, some content) => ofTagged? name content
  | _ => none

end EntityQuery.Value
