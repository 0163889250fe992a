import Keelith.Continuation.Memory.StoreLemmas
import Keelith.Continuation.Workflow.Runtime

/-!
# The runtimes over a memory store

`attach.go` and `runtime.go`: what a `WorkflowRuntime` calls.

* `Runtime.startCall`: it ends in `Store.Create`.
* `Runtime.children`: the child runtime of a workflow runtime on the same store.
-/

namespace Keelith.Continuation

/-- `Runtime`: the operations that have a machine in its registry. -/
structure Runtime where
  machines : Finset Operation

/-- `Registry.Resolve` finds a machine. -/
def Runtime.resolve (runtime : Runtime) (operation : Operation) : Bool :=
  validOperation operation && decide (operation ∈ runtime.machines)

def Runtime.startCall (runtime : Runtime) (ctx : Context) (callID : CallID) (operation : Operation)
    (input : List UInt8) (store : Memory.Store) : Except Error Snapshot × Memory.Store :=
  if !runtime.resolve operation then (.error (.sentinel .errMachineNotFound), store)
  else match newSnapshotWithInput callID operation input with
    | .error err => (.error err, store)
    | .ok snapshot => store.create ctx snapshot

/-- The runtime as the children of a workflow runtime. -/
def Runtime.children (runtime : Runtime) (ctx : Context) : WorkflowChildRuntime Memory.Store where
  startCall := runtime.startCall ctx
  attach callID after limit store := (attach (store.load ctx callID) callID after limit, store)

end Keelith.Continuation
