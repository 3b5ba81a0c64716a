import HostBridge.Abi.Basic
import HostBridge.Region.Fragment
import HostBridge.Region.Requirements

/-!
# Regions

A region is native code around a body: it reads host slots into native variables, runs the
body and publishes or releases what it read. A `Plan` collects the bindings, `build`
assembles the code:

    declare 0 .. n-1
    extract 0 .. n-1      a bad slot i jumps to fail_i
    body                  jumps to fail_(n-1)
    finish n-1 .. 0       a failing sync of i jumps to fail_(i-1)
    goto done
    fail_(n-1): cleanup n-1
    ..
    fail_0: cleanup 0
    failed:
    done:

The ladder of cleanups at the end is entered where everything below is still held: a
failing sync has given up its own binding, so it enters one rung further down. Without a
rung below, or without any binding, the target is `failed`.
-/

namespace HostBridge

/-- One binding of a plan. -/
structure Entry where
  node : Node
  binding : Binding
  terminal : Terminal

/-- The bindings of a region to be. The labels of the region begin with `stem`, the host
slots with `slotPrefix`. -/
structure Plan where
  stem : String
  slotPrefix : String
  entries : List Entry

/-- Assembled code. -/
structure Region where
  code : Block
  /-- Passed only after extraction, the body or a sync failed and the cleanups ran. -/
  failed : Label
  done : Label
  requirements : Requirements
  deriving DecidableEq

namespace Plan

/-- A label of the region with the given stem. -/
def labelOf (stem ending : String) : Except ValueError Label :=
  Label.ofText (stem ++ "_" ++ ending)

/-- A plan without bindings, if labels can begin with the stem. -/
def start (stem : String) (abi : Abi) : Except ValueError Plan := do
  let _ ← labelOf stem "done"
  .ok ⟨stem, abi.slotPrefix, []⟩

/-- The name of a binding's host slot. -/
def slotName (p : Plan) (b : Binding) : String :=
  p.slotPrefix ++ b.text

/-- What an accepted entry has against a new binding, if anything: it is of the same node,
has the same name, or the host slot of one is named like the variable of the other. -/
def objection? (p : Plan) (n : Node) (b : Binding) (e : Entry) : Option ArgumentFault :=
  if e.node.same n then some (.alreadyBound n.name e.binding.text)
  else if e.binding = b then some (.bindingTaken b.text e.node.name)
  else if b.text = p.slotName e.binding ∨ e.binding.text = p.slotName b then
    some (.slotCollision b.text e.binding.text)
  else none

/-- Adds a binding, unless an earlier one objects. -/
def bind (p : Plan) (n : Node) (b : Binding) (terminal : Terminal) : Except ValueError Plan :=
  match p.entries.findSome? (p.objection? n b) with
  | some fault => .error (.invalidArgument fault)
  | none => .ok { p with entries := p.entries ++ [⟨n, b, terminal⟩] }

/-- A fragment with the label behind which its cleanup runs. -/
structure Rung where
  fragment : Fragment
  fail : Label
  deriving DecidableEq

/-- The rungs for the entries from position `index` on; `below` is the label of the rung
below, or `failed`. -/
def rungsFrom (stem : String) (index : Nat) (below : Label) :
    List Entry → Except Obstacle (List Rung)
  | [] => .ok []
  | e :: rest => do
    let fail ← (labelOf stem ("fail_" ++ toString index)).mapError .failed
    let fragment ← Fragment.emit e.node e.binding fail below e.terminal
    let others ← rungsFrom stem (index + 1) fail rest
    .ok (⟨fragment, fail⟩ :: others)

/-- The rungs of the whole plan. -/
def rungs (p : Plan) (failed : Label) : Except Obstacle (List Rung) :=
  rungsFrom p.stem 0 failed p.entries

/-- The top of the ladder, where a failing body jumps. -/
def top (failed : Label) (rungs : List Rung) : Label :=
  (rungs.getLast?.map (·.fail)).getD failed

/-- The region's code around a body, in the order given at the head of this module. -/
def layout (failed done : Label) (rungs : List Rung) (body : Block) : Block :=
  rungs.flatMap (·.fragment.declare) ++
    (rungs.flatMap fun r =>
      .comment ("extract " ++ r.fragment.binding.text) :: r.fragment.extract) ++
    .comment "body" :: body ++
    (rungs.reverse.flatMap fun r =>
      .comment (r.fragment.terminal.action ++ " " ++ r.fragment.binding.text) ::
        r.fragment.finish) ++
    .goto done ::
    (rungs.reverse.flatMap fun r =>
      .label r.fail :: .comment ("cleanup " ++ r.fragment.binding.text) :: r.fragment.cleanup) ++
    [.label failed, .label done]

/-- The label that the body is given, if the fragments can be had. -/
def bodyTarget (p : Plan) : Except Obstacle Label := do
  let failed ← (labelOf p.stem "failed").mapError .failed
  let rungs ← p.rungs failed
  .ok (top failed rungs)

/-- Assembles the region. The body is asked for only when every fragment is there, and
receives the label to jump to on failure. That no label is defined twice is a debug
assertion, and what is modelled is the program compiled with debug assertions; without them
a region that defines a label twice is assembled like any other. -/
def build (p : Plan) (body : Label → Block) : Except Obstacle Region := do
  let failed ← (labelOf p.stem "failed").mapError .failed
  let done ← (labelOf p.stem "done").mapError .failed
  let rungs ← p.rungs failed
  let code := layout failed done rungs (body (top failed rungs))
  match code.clash? with
  | some label => .error (.clash label)
  | none =>
    let requirements ←
      (Requirements.collect (p.entries.map (·.node.kind))).mapError .failed
    .ok ⟨code, failed, done, requirements⟩

end Plan

end HostBridge
