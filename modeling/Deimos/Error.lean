import Deimos.Lib.Memory

set_option autoImplicit false

namespace Deimos

-- How kernel code stops for good: kpanic prints its message and halts, and a
-- null pointer dereference faults, since paging_init leaves page 0 unmapped.
inductive Stop where
  | panic (message : String)
  | fault
deriving DecidableEq, Repr

def kpanic {α : Type} (message : String) : Except Stop α := .error (.panic message)

def deref {α : Type} (pointer : Word) (value : Except Stop α) : Except Stop α :=
  if pointer = 0 then .error .fault else value

theorem deref_ne {α : Type} (pointer : Word) (value : Except Stop α) (nonnull : pointer ≠ 0) :
    deref pointer value = value := if_neg nonnull

end Deimos
