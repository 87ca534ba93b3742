import LambdaCalculi.Dependent.Value

/-!
# Registers of names with a common fingerprint

Names with a common fingerprint can be counted with the help of registers. A register is a row of
places that environments extended from one another share: each of them sees a first part of it. A
name that an environment does not see is new to it and is written in the place behind the part it
sees. An environment extended from the same one may have written there before; it then sees the
new name where its own was, so its own is new to it again. A register without a free place behind
the part in view is left as it is, and a copy of that part with twice the places takes over. A name
that is already in view is bound anew in a copy of the part in view, which has no free place: what
others write in the register from then on is not seen there.
-/

set_option autoImplicit false

namespace LambdaCalculi.Dependent

/-- A row of places, of which the first ones are taken. -/
structure Register where
  capacity : Nat
  places : List Name
deriving DecidableEq, Repr

namespace Register

/-- Writes a name in the place with the given number, over what is there. -/
def write (register : Register) (place : Nat) (x : Name) : Register :=
  { register with
    places := register.places.take place ++ x :: register.places.drop (place + 1) }

end Register

structure Registers where
  rows : Array Register := #[]
deriving DecidableEq, Repr

namespace Registers

def row (registers : Registers) (view : View) : Register :=
  registers.rows[view.register]?.getD ⟨0, []⟩

def seen (registers : Registers) (view : View) : List Name :=
  (registers.row view).places.take view.length

/-- Opens a register that holds the given names, and views all of them. -/
def start (registers : Registers) (capacity : Nat) (names : List Name) : View × Registers :=
  (⟨registers.rows.size, names.length⟩, ⟨registers.rows.push ⟨capacity, names⟩⟩)

/-- Writes a name behind the part in view, in a larger copy if the register has no place there. -/
def enter (registers : Registers) (view : View) (x : Name) : View × Registers :=
  let row := registers.row view
  if view.length < row.capacity then
    (⟨view.register, view.length + 1⟩,
      ⟨registers.rows.modify view.register fun row => row.write view.length x⟩)
  else
    registers.start (2 * row.capacity) (registers.seen view ++ [x])

/-- Opens a register with just the part in view. -/
def detach (registers : Registers) (view : View) : View × Registers :=
  let names := registers.seen view
  registers.start names.length names

end Registers

namespace Env

/-- The innermost name with the given fingerprint and the view that its binding has. -/
def innermostLike? : Env → UInt32 → Option (Name × Option View)
  | nil, _ => none
  | cons tally x _ outer, digest =>
      if x.fingerprint = digest then some (x, tally.view?) else outer.innermostLike? digest

/-- The tally of a new binding of `x`. The first name of a fingerprint is only counted, the second
opens a register for the two, and later ones are entered there. A name that is there already is not
counted again, and the register is detached from those it was shared with. -/
def tallyWith (registers : Registers) (env : Env) (x : Name) : Tally × Registers :=
  match env.innermostLike? x.fingerprint with
  | none => (⟨env.size + 1, none⟩, registers)
  | some (y, none) =>
      if y = x then
        (⟨env.size, none⟩, registers)
      else
        let (view, registers) := registers.start 2 [y, x]
        (⟨env.size + 1, some view⟩, registers)
  | some (_, some view) =>
      if x ∈ registers.seen view then
        let (view, registers) := registers.detach view
        (⟨env.size, some view⟩, registers)
      else
        let (view, registers) := registers.enter view x
        (⟨env.size + 1, some view⟩, registers)

def extendWith (registers : Registers) (env : Env) (x : Name) (value : Value) : Env × Registers :=
  let (tally, registers) := env.tallyWith registers x
  (cons tally x value env, registers)

end Env

end LambdaCalculi.Dependent
