import Formula.Json.Reader
import Formula.Json.Writer
import Formula.Value.Basic
/-!
Values as JSON documents: an object with the tag of the kind and the content.
-/

namespace Formula

namespace Value

/-- The content of a value as a document. -/
def contentDocument : Value → Json
  | bool b => .bool b
  | int n => .integer n.toInt
  | real x => .ofDouble x
  | complex z => .array [.ofDouble z.re, .ofDouble z.im]
  | interval a =>
    .ofFields [("min", .ofDouble a.lo), ("max", .ofDouble a.hi), ("info", .integer a.info.toNat)]
  | boolInterval b =>
    .ofFields [("min", .bool b.lo), ("max", .bool b.hi), ("info", .integer b.info.toNat)]

/-- A value as a document. -/
def document (v : Value) : Json :=
  .ofFields [("type", .ofString v.kind.tag), ("value", v.contentDocument)]

/-- The flags of a range in a document. -/
def infoOf? (j : Json) : Option UInt8 :=
  (j.intWithin? 0 255).map fun n => UInt8.ofNat n.toNat

/-- Reads the ends and flags of a range, by name or in order. -/
def rangeOf? {α β : Type} (end? : Json → Option α) (make : α → α → UInt8 → β) :
    Json → Option β
  | .array [lo, hi, info] => do some (make (← end? lo) (← end? hi) (← infoOf? info))
  | .object fields => do
    let fields ← (Json.object fields).fields?
    let lo ← end? (← Json.once? "min" fields)
    let hi ← end? (← Json.once? "max" fields)
    let info ← infoOf? (← Json.once? "info" fields)
    some (make lo hi info)
  | _ => none

/-- Reads the content of a value of a kind. -/
def ofContent? (k : Kind) (j : Json) : Option Value :=
  match k with
  | .bool => j.bool?.map bool
  | .int => j.int64?.map int
  | .real => j.double?.map real
  | .complex =>
    match j with
    | .array [re, im] => do some (complex ⟨← re.double?, ← im.double?⟩)
    | _ => none
  | .interval => (rangeOf? Json.double? Interval.mk j).map interval
  | .boolInterval => (rangeOf? Json.bool? BoolInterval.mk j).map boolInterval

/-- The kind with a tag. -/
def kindOf? (tag : String) : Option Kind :=
  Kind.all.find? (·.tag == tag)

/-- Reads the tag of an object: a text, or an object with the tag as its only name and nothing
under it. -/
def tagOf? (origin : Json.Origin) : Json → Option Kind
  | .string (some tag) => kindOf? tag
  | .object [(some tag, .null)] => kindOf? tag
  | .object [(some tag, .object [])] => if origin = .held then kindOf? tag else none
  | _ => none

/-- Reads the tag in front of its content: a text, or in a held document the place of the kind. -/
def leadingTagOf? (origin : Json.Origin) : Json → Option Kind
  | .string (some tag) => kindOf? tag
  | .integer n => if origin = .held ∧ 0 ≤ n then Kind.all[n.toNat]? else none
  | _ => none

/-- Whether content that comes before its tag can be held until the tag is read. -/
def isHoldable (origin : Json.Origin) (fields : List (String × Json)) (content : Json) : Bool :=
  match origin with
  | .held => true
  | .text enclosing =>
    match fields.find? (fun f => f.1 == "type" || f.1 == "value") with
    | some ("value", _) => content.isSound (Json.depthLimit - enclosing - 1)
    | _ => true

/-- Reads a value: an object with a tag and a content, or an array of the two. -/
def ofDocument? (origin : Json.Origin) : Json → Option Value
  | .array [tag, content] => do ofContent? (← leadingTagOf? origin tag) content
  | .object fields => do
    let fields ← (Json.object fields).fields?
    let tag ← Json.once? "type" fields
    let content ← Json.once? "value" fields
    if isHoldable origin fields content then ofContent? (← tagOf? origin tag) content else none
  | _ => none

/-- The value that a text holds. -/
def parse? (text : String) : Option Value :=
  (Json.parse? text).bind (ofDocument? (.text 0))

end Value

end Formula
