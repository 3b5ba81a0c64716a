import HostBridge.Value.Node

/-!
# The code of one bound value

A fragment is the code that a kind's hooks give for one binding in a region: what
declares its variables, what reads the host slot, what runs on the normal path and what
runs on the failure path. `Obstacle` says why code cannot be had.
-/

namespace HostBridge

/-- What a binding does on the normal path. -/
inductive Terminal where
  /-- Publishes the native value into the host slot. -/
  | sync
  /-- Releases the native value and leaves the host slot as it is. -/
  | cleanup
  deriving DecidableEq, Repr

namespace Terminal

def name : Terminal → String
  | sync => "Sync"
  | cleanup => "Cleanup"

/-- The verb in comments. -/
def action : Terminal → String
  | sync => "sync"
  | cleanup => "cleanup"

end Terminal

/-- Why there is no native code for a group of bindings. -/
inductive Obstacle where
  /-- A node's kind has no such hook, so the group has to be interpreted. -/
  | lacking (node : Node) (capability : Capability)
  /-- A hook failed, or a name is refused. -/
  | failed (error : ValueError)
  /-- The assembled code would define a label twice. A debug assertion ends the program there;
  one that is compiled without debug assertions does not look. -/
  | clash (label : Label)

/-- The code for one bound value. -/
structure Fragment where
  binding : Binding
  terminal : Terminal
  declare : Block
  extract : Block
  /-- The normal path. -/
  finish : Block
  /-- The failure path. -/
  cleanup : Block
  deriving DecidableEq

/-- The answer of a hook that code cannot do without. -/
def Node.require {α : Type} (n : Node) (capability : Capability) :
    Except ValueError α → Except Obstacle α
  | .ok a => .ok a
  | .error e => .error (if e.isUnsupported then .lacking n capability else .failed e)

/-- The code for a node under a binding. `extract` jumps to `fail`, behind which this
binding's cleanup runs; `sync` jumps to `syncFail`, behind which it does not. The sync hook
is asked for only where the binding is to be published. -/
def Fragment.emit (n : Node) (b : Binding) (fail syncFail : Label) (terminal : Terminal) :
    Except Obstacle Fragment := do
  let declare ← n.require .declare (n.kind.declare b)
  let extract ← n.require .extract (n.kind.extract b fail)
  let cleanup ← n.require .cleanup (n.kind.cleanup b)
  let finish ← match terminal with
    | .cleanup => .ok cleanup
    | .sync => n.require .sync (n.kind.sync b syncFail)
  .ok ⟨b, terminal, declare, extract, finish, cleanup⟩

end HostBridge
