import Mathlib.Data.Finset.Basic

set_option autoImplicit false

/-! A heap of values of one type: what is allocated, and what stands there. -/

namespace Heap

structure Memory (V : Type) where
  live : Finset Nat
  content : Nat → V

structure Allocator where
  new : Finset Nat → Nat
  fresh : ∀ live, new live ∉ live

namespace Memory

variable {V : Type} (memory : Memory V)

-- none is an access to memory that is not allocated.
def deref (pointer : Nat) : Option V :=
  if pointer ∈ memory.live then some (memory.content pointer) else none

def allocate (pointer : Nat) (value : V) : Memory V :=
  ⟨insert pointer memory.live, Function.update memory.content pointer value⟩

def assign (pointer : Nat) (value : V) : Memory V :=
  { memory with content := Function.update memory.content pointer value }

def free (pointer : Nat) : Memory V := { memory with live := memory.live.erase pointer }

theorem deref_live (pointer : Nat) (live : pointer ∈ memory.live) :
    memory.deref pointer = some (memory.content pointer) :=
  if_pos live

end Memory

end Heap
