/-!
# Binary floating point as exact numbers

A finite floating-point number of 64 bits is a whole number times a power of two.

* **`Reading.ofFloat`** takes a number apart into what it stands for.
* **`Binary.tight`** marks the powers of two, whose neighbour below is closer than the one above.
-/

namespace FlowTree.Decimal

/-- The number `mantissa * 2 ^ exponent` with a sign; zero has a sign too. -/
structure Binary where
  negative : Bool
  mantissa : Nat
  exponent : Int
  deriving DecidableEq, Repr

/-- What a floating-point value stands for. -/
inductive Reading where
  | nan
  | infinite (negative : Bool)
  | finite (number : Binary)
  deriving DecidableEq, Repr

namespace Binary

/-- The smallest mantissa of a number that is not subnormal, the 52nd power of two. -/
def hidden : Nat := 0x10000000000000

/-- The exponent of the smallest numbers. -/
def leastExponent : Int := -1074

/-- The neighbour below is half as far away as the neighbour above. -/
def tight (b : Binary) : Bool := b.mantissa == hidden && b.exponent != leastExponent

end Binary

namespace Reading

/-- The value that 64 bits encode: a sign, eleven bits of exponent, the rest of the mantissa. -/
def ofBits (bits : Nat) : Reading :=
  let negative := (bits >>> 63) % 2 == 1
  let field := (bits >>> 52) % 2048
  let fraction := bits % Binary.hidden
  if field == 2047 then
    if fraction == 0 then infinite negative else nan
  else if field == 0 then
    finite ⟨negative, fraction, Binary.leastExponent⟩
  else
    finite ⟨negative, Binary.hidden + fraction, Binary.leastExponent + (field - 1 : Nat)⟩

/-- The value of a floating-point number. -/
def ofFloat (x : Float) : Reading := ofBits x.toBits.toNat

end Reading

end FlowTree.Decimal
