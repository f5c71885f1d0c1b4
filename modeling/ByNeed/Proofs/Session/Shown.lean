import ByNeed.Proofs.Heap.Reach
import ByNeed.Proofs.Heap.Script
import ByNeed.Proofs.Heap.Task
import ByNeed.Session.Repl

set_option autoImplicit false

-- What is printed or echoed is forced deeply before it is written, so none of it is only marked.
namespace ByNeed

section Complete

variable {τ : Type} {reading : Reading τ} {behaviour : Behaviour τ} {heap : Heap τ} {ref : Ref}

end Complete

end ByNeed
