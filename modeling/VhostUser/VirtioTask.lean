import Mathlib.Algebra.Group.Nat.Defs
import Mathlib.Logic.Function.Basic

/-! # Tasks and their buffers

The data of `virtio_task.h`. What a buffer pointer is depends on who looks at
it: the vring only copies it into a descriptor, the block device code fills the
memory behind it. The pointer type is therefore a parameter.
-/

namespace VhostUser

/-- `virtio_buffer_t`. The byte range `[offsetFrom, offsetTo)` is auxiliary
information of the code above the vring. -/
structure VirtioBuffer (ptr : Type) where
  buf : ptr
  size : Nat
  response : Bool
  copy : Bool
  offsetFrom : Nat
  offsetTo : Nat
  deriving Repr, DecidableEq

/-- `virtio_task_t` without the callback and its argument, which the submitter
stores and the poller reads; `count` is the length of `vbufs`. -/
structure VirtioTask (ptr : Type) where
  vbufs : List (VirtioBuffer ptr)
  limit : Nat
  vringIdx : Nat
  usedBytes : Nat
  deriving Repr, DecidableEq

namespace VirtioTask

variable {ptr : Type}

def count (task : VirtioTask ptr) : Nat := task.vbufs.length

/-- A freshly allocated task: `calloc` zeroes the two ring fields. -/
def empty (nbufs : Nat) : VirtioTask ptr := ⟨[], nbufs, 0, 0⟩

end VirtioTask

end VhostUser
