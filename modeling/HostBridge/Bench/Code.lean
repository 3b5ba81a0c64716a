import HostBridge.Bench.Nodes

/-!
# Code and runs on a bench
-/

namespace HostBridge

/-- A binding that a region is to have. -/
structure BindRequest where
  node : String
  binding : String
  terminal : Terminal

/-- How building a region went. -/
structure RegionReport where
  /-- For each request why it was refused, if it was. -/
  binds : List (Option ValueError)
  /-- The label that the body was given, if it was asked for. -/
  bodyTarget : Option Label
  /-- Nothing where the region has to be interpreted. -/
  region : Except ValueError (Option Region)

/-- What a slot is bound to. -/
inductive SlotContent where
  | null
  | new (value : HeapValue)
  | shared (a : Address)

/-- A run and the host after it. -/
structure RunReport where
  trace : Except Fault (Array String)
  host : Host

namespace Bench

/-- The code of one binding; nothing where it has to be interpreted. -/
def fragment (name binding fail syncFail : String) (terminal : Terminal) :
    BenchM (Option Fragment) := do
  let b ← require (Binding.ofText binding)
  let fail ← require (Label.ofText fail)
  let syncFail ← require (Label.ofText syncFail)
  let n ← node name
  match Fragment.emit n.node b fail syncFail terminal with
  | .ok f => return some f
  | .error obstacle =>
    note (Record.ofObstacle obstacle)
    match obstacle with
    | .lacking .. => return none
    | .failed e => throw (.value e)
    | .clash l => throw (.clash l)

def requirements (names : List String) : BenchM Requirements := do
  let nodes ← names.mapM node
  require (Requirements.collect (nodes.map (·.node.kind)))

/-- Stands for the label that a body is given while its other labels are checked. -/
def anyLabel : Label := ⟨"fail", by decide⟩

/-- Makes one binding. -/
def bindOne (p : Plan) (r : BindRequest) : BenchM (Plan × Option ValueError) := do
  let n ← node r.node
  match Binding.ofText r.binding >>= fun b => p.bind n.node b r.terminal with
  | .ok p => return (p, none)
  | .error e => return (p, some e)

/-- Makes bindings in order. A refused one leaves the plan as it was. -/
def bindAll (p : Plan) : List BindRequest → BenchM (Plan × List (Option ValueError))
  | [] => return (p, [])
  | r :: rest => do
    let (p, first) ← bindOne p r
    let (p, others) ← bindAll p rest
    return (p, first :: others)

/-- Builds a region around a body. The labels of the body are checked first. -/
def region (stem : String) (abi : Abi) (requests : List BindRequest) (body : List Sketch) :
    BenchM RegionReport := do
  let bodyFor (fail : Label) := Sketch.resolveAll ⟨none, some fail⟩ body
  let _ ← require (bodyFor anyLabel)
  let plan ← require (Plan.start stem abi)
  let (plan, binds) ← bindAll plan requests
  let target := plan.bodyTarget.toOption
  let built := plan.build fun fail => (bodyFor fail).toOption.getD []
  note (Record.ofBuild plan built)
  match built with
  | .ok r => return ⟨binds, target, .ok (some r)⟩
  | .error (.lacking ..) => return ⟨binds, target, .ok none⟩
  | .error (.failed e) => return ⟨binds, target, .error e⟩
  | .error (.clash l) => throw (.clash l)

/-- The host as it is. -/
def hostNow : BenchM Host := do
  return (← get).host

def setHost (h : Host) : BenchM Unit :=
  modify fun b => { b with host := h }

/-- Binds one slot of the host. -/
def bindSlot (slot : String × SlotContent) : BenchM Unit := do
  let h ← hostNow
  match slot.2 with
  | .null => setHost (h.bindNull slot.1)
  | .new value => setHost (h.bindNew slot.1 value)
  | .shared a =>
    if h.objects.size ≤ a then throw (.noSuch "object")
    else
      match h.bindShared slot.1 a with
      | some h => setHost h
      | none => throw .freedObject

/-- Sets whether boxing fails, if that is given, and binds slots in order. -/
def prepareHost (boxingFails : Option Bool) (slots : List (String × SlotContent)) :
    BenchM Host := do
  let h ← hostNow
  setHost { h with boxingFails := boxingFails.getD h.boxingFails }
  slots.forM bindSlot
  hostNow

def newHost : BenchM Host := do
  setHost .empty
  hostNow

/-- Runs a block on the host. -/
def run (code : Block) : BenchM RunReport := do
  let (trace, h) := (← hostNow).run code
  setHost h
  return ⟨trace, h⟩

/-- Runs a block several times in succession. -/
def runTimes (n : Nat) (code : Block) : BenchM (List RunReport) :=
  (List.replicate n code).mapM run

end Bench

end HostBridge
