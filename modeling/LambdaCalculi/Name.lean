/-!
# Names

Variables are strings, compared character by character. Reading a value back into syntax needs
names that are not yet taken, which `Name.fresh` finds by adding primes. `Name.fingerprint` is the
32-bit digest by which the environments of the dependent calculus index their entries.
-/

set_option autoImplicit false

namespace LambdaCalculi

/-- The name of a variable, a binder or a definition. Any string is a name, the empty one too. -/
abbrev Name := String

namespace Name

/-- Adds primes to `x` while it is in `used`, at most `bound` of them. -/
def freshWithin (used : List Name) : (bound : Nat) → (x : Name) → Name
  | 0, x => x
  | bound + 1, x => if x ∈ used then freshWithin used bound (x ++ "'") else x

/-- The first of `x`, `x'`, `x''`, … that is not in `used`. The primed names are distinct, so one of
the first `used.length + 1` of them is free and the bound on the primes is never felt. -/
def fresh (used : List Name) (x : Name) : Name :=
  freshWithin used used.length x

/-- One byte of the FNV-1a digest: exclusive or with the byte, then a product modulo `2 ^ 32`. -/
def mixByte (digest : UInt32) (byte : UInt8) : UInt32 :=
  (digest ^^^ byte.toUInt32) * 16777619

/-- The 32-bit FNV-1a digest of the UTF-8 bytes of a name. -/
def fingerprint (x : Name) : UInt32 :=
  (x.toList.flatMap String.utf8EncodeChar).foldl mixByte 2166136261

/-- The name after its length in bytes, which is left out when it is zero. -/
def sized (x : Name) : String :=
  (if x = "" then "" else "(len=" ++ toString x.utf8ByteSize ++ ") ") ++ x

end Name

end LambdaCalculi
