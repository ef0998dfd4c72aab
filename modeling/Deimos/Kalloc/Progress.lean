import Deimos.Kalloc.Free
import Deimos.Kalloc.Settled

set_option autoImplicit false

namespace Deimos.Kalloc

open Mem Tiling Comp

def Answers (base stop : Nat) (size : Word) (align : Bool) (s : Heap) : Prop :=
  ∃ ptr s' cs, (kmallocInt size align s).Returns (ptr, s') ∧ WellFormed base stop s' cs ∧
    (ptr = 0 ∨ ∃ b ∈ cs, b.used ∧ b.payload = ptr)

end Deimos.Kalloc
