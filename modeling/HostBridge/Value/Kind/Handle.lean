import HostBridge.Value.Kind

/-!
# The kind of opaque host values

Native code holds a handle and keeps reference counts balanced; it never looks inside.
Any object is accepted. The native variable owns one reference of its own from `extract`
on: `cleanup` gives it back, `sync` hands it to the host slot.
-/

namespace HostBridge.Kind

/-- Any host object, held by a handle. No two values have the same properties. -/
def handle (ident : Nat) : Kind where
  typeName := "opaque_host_value"
  scalar? := none
  ident := ident
  filter := fun _ value => .ok value
  sameProperties := fun _ => .ok false
  cloneData := fun fresh data => .ok (data.map (HostValue.duplicate fresh))
  declare := fun b => .ok [.declare b.text .handle]
  extract := fun b _ => .ok [.incRef b.host, .assign b.native b.host]
  cleanup := fun b => .ok [.decRef b.native]
  sync := fun b _ => .ok [.decRef b.host, .assign b.host b.native, .clear b.native]

end HostBridge.Kind
