import LoxLang.Heap.Basic
import LoxLang.Proofs.Heap.Frames

/-!
Grounded heaps.  Every frame but the global one is enclosed by an older one, functions
stand in frames that exist, and superclasses are older than their subclasses.  So chains
of frames and of classes are finite, and every chain of frames ends at the globals.
-/

namespace LoxLang

namespace Heap

/-- Chains of frames lead to the globals, and chains of classes come to an end. -/
structure IsGrounded (heap : Heap) : Prop where
  rooted : 0 < heap.frames.size
  ordered : heap.frames.IsOrdered
  enclosed : ∀ frame < heap.frames.size, frame ≠ globals →
    ∃ outer, heap.frames.enclosing? frame = some outer
  closures : ∀ id < heap.closures.size, (heap.closure id).frame < heap.frames.size
  superclasses : ∀ type parent, (heap.classOf type).superclass = some parent → parent < type

end Heap

end LoxLang
