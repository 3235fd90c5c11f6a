import Ketscript.Linear.Matrix
import Ketscript.Binary64.Scalar
import Ketscript.Binary64.Text

/-! Written forms of amplitudes, kets and matrices, with four decimals. -/

namespace Ketscript

/-- Decimals of a written part. -/
def shownPlaces : Nat := 4

/-- A part without its sign if it is below zero. A negative zero is not, and keeps its sign. -/
def unsignedPart (x : Float) : String := Binary64.fixed shownPlaces (if x < 0 then 0 - x else x)

/-- Both parts with the sign between them: `0.7071-0.5000i`. -/
def FloatComplex.render (z : FloatComplex) : String :=
  (if z.re < 0 then "-" else "") ++ unsignedPart z.re ++ (if z.im < 0 then "-" else "+") ++
    unsignedPart z.im ++ "i"

def renderRow (row : Array FloatComplex) : String :=
  "[" ++ ", ".intercalate (row.map FloatComplex.render).toList ++ "]"

def Ket.render (v : Ket FloatComplex) : String := renderRow v

/-- A matrix is written row by row, each on a line of its own. -/
def Matrix.render (m : Matrix FloatComplex) : String :=
  String.join ((List.range m.rows).map fun r =>
    renderRow (Array.ofFn fun c : Fin m.cols => m.entry r c) ++ "\n")

end Ketscript
