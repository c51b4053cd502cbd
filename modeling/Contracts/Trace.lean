import Contracts.Host
import Contracts.Spec

/-!
# Contracts.Trace

Traces of single checks.

* `TraceSetting.emit` — sends an event where a contract traces to.

A sink that gives up is ignored: what it did before stays done, the journal says so, and the call
goes on.
-/

namespace Contracts

/-- Sends an event where the contract traces to. By default the journal keeps its parts, with the
input and the result as texts. -/
def TraceSetting.emit {κ ε : Type} (host : Host κ ε) (e : TraceEvent) :
    TraceSetting κ → Action (World ε) Unit
  | .disabled => pure ()
  | .default => do
    let h ← World.readHeap
    World.log (.defaultTrace e.kind e.className e.member (e.input.render h)
      (e.result.map h.render) e.passed e.failure)
  | .sink code => do
    let h ← World.readHeap
    World.log (.traced (e.text h))
    tryCatch (host.deliver code e) fun _ => World.log (.sinkPanicked e.kind)

end Contracts
