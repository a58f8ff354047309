import FlowTree.Document
import FlowTree.Decimal.Numeral

/-!
# Values as text

* **`valueText`** writes a value rounded to a whole number, and `NA` for a missing one.
* **`tooltip`** has one line for each reported attribute: its label, its value at a date, its unit.
-/

namespace FlowTree

variable {α : Type} [Printed α]

/-- The text for a value that is missing. -/
def missingValueText : String := "NA"

/-- A value rounded to a whole number. -/
def valueText (value : Option α) : String := (value.map Printed.rounded).getD missingValueText

/-- The line of one attribute. -/
def Attributes.tooltipLine (data : Attributes α) (date : Nat) (metadata : Metadata) (key : String) :
    String :=
  metadata.label key ++ " " ++ valueText (data.valueAt key date) ++ " " ++ metadata.unit key

/-- The lines of all reported attributes in order. -/
def Attributes.tooltip (data : Attributes α) (date : Nat) (metadata : Metadata) : String :=
  "\n".intercalate (data.keys.map (data.tooltipLine date metadata))

end FlowTree
