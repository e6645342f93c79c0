/-!
# Hexadecimal text

Lower-case digits, most significant first.
-/
namespace Sidetable.Hex

/-- Digits of `n` without leading zeros; zero is the single digit `0`. -/
def digits (n : Nat) : String :=
  String.ofList (Nat.toDigits 16 n)

def padded (width n : Nat) : String :=
  String.ofList ((Nat.toDigits 16 n).leftpad width '0')

def ofBytes (bytes : List UInt8) : String :=
  String.join (bytes.map fun b => padded 2 b.toNat)

def spaced (bytes : List UInt8) : String :=
  " ".intercalate (bytes.map fun b => padded 2 b.toNat)

end Sidetable.Hex
