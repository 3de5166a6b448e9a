import BinomialLogit.Answer
import BinomialLogit.Column.Basic
import BinomialLogit.Decimal.Numeral
import BinomialLogit.Text.Blank

/-! Columns read as doubles: strictly, where another storage is refused, or by coercion, where
texts are read as numerals. What is missing becomes a NaN. -/

namespace BinomialLogit
set_option autoImplicit false

namespace Column

def missing : String := "NA"

/-- The double that an element of text denotes, or else the text without the blanks around it. -/
def readText (text : String) : Except String Binary64 :=
  let text := String.ofList (Text.trim text.toList)
  if text = missing then .ok .nan
  else
    match Numeral.ofString? text with
    | some n => .ok n.toBinary64
    | none => .error text

def readCell : Option String → Except String Binary64
  | none => .ok .nan
  | some text => readText text

def ofTruth (b : Bool) : Binary64 := if b then 1 else 0

def values (arg : String) : Column → Except (Fault Binary64) (List Binary64)
  | double xs => .ok xs
  | integer xs => .ok (xs.map fun x => x.elim .nan fun n => .ofInt n.toInt)
  | logical xs => .ok (xs.map fun x => x.elim .nan ofTruth)
  | character xs => xs.zipIdx.mapM fun (x, i) => (readCell x).mapError (.unreadable arg i)

def doubles (arg : String) : Column → Except (Fault Binary64) (List Binary64)
  | double xs => .ok xs
  | c => .error (.notDouble arg c.storage)

/-- The elements as doubles. That another storage is being read goes on record first. -/
def coerce (arg : String) (c : Column) : Answer Binary64 (List Binary64) := do
  if c.storage ≠ .double then
    .record (.coercing arg c.storage c.length)
  c.values arg

end Column

end BinomialLogit
