import Ketscript.Scalar
import Ketscript.Binary64.Circle

/-! Binary64 numbers as real scalars, and pairs of them as amplitudes. -/

namespace Ketscript

instance : RealScalar Float where
  zero := 0.0
  decLt := inferInstance
  decLe := inferInstance
  ofDecimal m k := Float.ofScientific m true k
  abs := Float.abs
  sqrt := Float.sqrt
  hypot := Binary64.hypot
  log2 := Float.log2
  pi := 3.141592653589793
  cos := Binary64.cos
  sin := Binary64.sin
  atan2 := Float.atan2
  hasPlusSign := Binary64.hasPlusSign

/-- A complex number with binary64 parts. Every operation rounds each of its steps: that sums and products of
    amplitudes are formed by the formulas below is part of what is assumed of the library of complex numbers. -/
structure FloatComplex where
  re : Float
  im : Float
deriving DecidableEq

namespace FloatComplex

instance : Amplitude FloatComplex Float where
  ofParts := mk
  re := re
  im := im

instance : Zero FloatComplex := ⟨⟨0.0, 0.0⟩⟩

instance : One FloatComplex := ⟨⟨1.0, 0.0⟩⟩

instance : Add FloatComplex := ⟨fun a b => ⟨a.re + b.re, a.im + b.im⟩⟩

instance : Sub FloatComplex := ⟨fun a b => ⟨a.re - b.re, a.im - b.im⟩⟩

instance : Neg FloatComplex := ⟨fun a => ⟨-a.re, -a.im⟩⟩

instance : Mul FloatComplex := ⟨fun a b => ⟨a.re * b.re - a.im * b.im, a.re * b.im + a.im * b.re⟩⟩

/-- Parts are compared as numbers: zeros of both signs are equal, and what is not a number equals nothing. -/
instance : BEq FloatComplex := ⟨fun a b => a.re == b.re && a.im == b.im⟩

end FloatComplex
end Ketscript
