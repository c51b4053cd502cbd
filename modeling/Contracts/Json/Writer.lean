import Contracts.Decimal.NumberText
import Contracts.Json.Printer

/-!
# Contracts.Json.Writer

What writes JSON text.

* `JsonWriter`          — literals of numbers, strings between quotes, and the texts of trees.
* `JsonTree.compact`    — the text of a tree.
* `Json.standardWriter` — the writer of the program.

Whatever shows values as text takes the writer for a parameter.
-/

namespace Contracts

/-- A writer of JSON text. -/
class JsonWriter where
  /-- The literal of an integer. -/
  integer : Int → String
  /-- The literal of a double. Infinities and what is no number have none. -/
  double? : Float → Option String
  /-- A string between quotes. -/
  quote : String → String
  /-- A tree in one line without blanks. -/
  compact : Json → String

/-- The compact text of a tree. -/
def JsonTree.compact [JsonWriter] (j : Json) : String := JsonWriter.compact j

/-- The writer of the program. Doubles are written as the shortest decimals that read back. -/
instance Json.standardWriter : JsonWriter where
  integer := toString
  double? := doubleText?
  quote := quote
  compact := compactText

end Contracts
