import HostBridge.Binary64.Text
import HostBridge.Text.Quoted

/-!
# Host objects

A host value is a handle to an object of the host. Objects do not change, so a handle is
modelled by the object's identity, given at its creation, together with what the object
holds: plain data, or handles of further objects. `Shape` is the content without the
identities.
-/

namespace HostBridge

/-- Data that holds no handles. -/
inductive Plain where
  | i64 (value : Int64)
  | i32 (value : Int32)
  | u64 (value : UInt64)
  | f64 (value : Binary64)
  | bool (value : Bool)
  | text (value : String)
  | char (value : Char)
  | unit
  | integers (values : List Int64)
  | optional (value : Option Int64)
  | pair (key : String) (value : Int64)
  deriving DecidableEq, Repr

/-- Items between brackets. -/
def bracketed (items : List String) : String :=
  "[" ++ String.intercalate ", " items ++ "]"

namespace Plain

def typeName : Plain → String
  | i64 _ => "i64"
  | i32 _ => "i32"
  | u64 _ => "u64"
  | f64 _ => "f64"
  | bool _ => "bool"
  | text _ => "str"
  | char _ => "char"
  | unit => "unit"
  | integers _ => "vec_i64"
  | optional _ => "opt_i64"
  | pair .. => "pair"

def toText : Plain → String
  | i64 v => toString v.toInt
  | i32 v => toString v.toInt
  | u64 v => toString v.toNat
  | f64 v => v.toText
  | bool true => "true"
  | bool false => "false"
  | text v => Text.quote v
  | char v => Text.quoteChar v
  | unit => "()"
  | integers vs => bracketed (vs.map fun v => toString v.toInt)
  | optional none => "None"
  | optional (some v) => "Some(" ++ toString v.toInt ++ ")"
  | pair key v => "(" ++ Text.quote key ++ ", " ++ toString v.toInt ++ ")"

end Plain

/-- The content of an object, all the way down, without identities. -/
inductive Shape where
  | plain (content : Plain)
  | list (items : List Shape)
  | boxed (inside : Shape)

namespace Shape

def typeName : Shape → String
  | plain content => content.typeName
  | list _ => "list"
  | boxed _ => "boxed"

mutual

/-- A list shows its items and a box what is inside it. -/
def toText : Shape → String
  | plain content => content.toText
  | list items => bracketed (itemTexts items)
  | boxed inside => toText inside

/-- The texts of items in order. -/
def itemTexts : List Shape → List String
  | [] => []
  | item :: rest => toText item :: itemTexts rest

end

end Shape

/-- The identity of an object. -/
abbrev ObjectId := Nat

/-- A handle to an object: its identity and what it holds. -/
inductive HostValue where
  | plain (id : ObjectId) (content : Plain)
  | list (id : ObjectId) (items : List HostValue)
  | boxed (id : ObjectId) (inside : HostValue)

namespace HostValue

def id : HostValue → ObjectId
  | plain id _ => id
  | list id _ => id
  | boxed id _ => id

/-- Both handles are to one object. -/
def same (a b : HostValue) : Bool :=
  a.id == b.id

/-- A new object with the same content. What the content has handles to is not copied. -/
def duplicate (fresh : ObjectId) : HostValue → HostValue
  | plain _ content => plain fresh content
  | list _ items => list fresh items
  | boxed _ inside => boxed fresh inside

/-- The plain data of an object, if it holds no handles. -/
def plain? : HostValue → Option Plain
  | plain _ content => some content
  | _ => none

/-- An item of a list; a box has its inside at every index. -/
def element? (i : Nat) : HostValue → Option HostValue
  | plain .. => none
  | list _ items => items[i]?
  | boxed _ inside => some inside

mutual

def shape : HostValue → Shape
  | plain _ content => .plain content
  | list _ items => .list (shapes items)
  | boxed _ inside => .boxed (shape inside)

/-- The shapes of items in order. -/
def shapes : List HostValue → List Shape
  | [] => []
  | item :: rest => shape item :: shapes rest

end

mutual

/-- The objects that can be reached through a handle, its own among them. -/
def reachable : HostValue → List ObjectId
  | plain id _ => [id]
  | list id items => id :: reachableItems items
  | boxed id inside => id :: reachable inside

/-- The objects that can be reached through some item. -/
def reachableItems : List HostValue → List ObjectId
  | [] => []
  | item :: rest => reachable item ++ reachableItems rest

end

@[simp] theorem id_duplicate (fresh : ObjectId) (v : HostValue) : (v.duplicate fresh).id = fresh := by
  cases v <;> rfl

@[simp] theorem shape_duplicate (fresh : ObjectId) (v : HostValue) :
    (v.duplicate fresh).shape = v.shape := by
  cases v <;> rfl

@[simp] theorem plain?_duplicate (fresh : ObjectId) (v : HostValue) :
    (v.duplicate fresh).plain? = v.plain? := by
  cases v <;> rfl

@[simp] theorem duplicate_duplicate (fresh earlier : ObjectId) (v : HostValue) :
    (v.duplicate earlier).duplicate fresh = v.duplicate fresh := by
  cases v <;> rfl

@[simp] theorem duplicate_id (v : HostValue) : v.duplicate v.id = v := by
  cases v <;> rfl

def typeName (v : HostValue) : String :=
  v.shape.typeName

def toText (v : HostValue) : String :=
  v.shape.toText

end HostValue

mutual

/-- New objects of a shape, each with an identity of its own from `next` on, and the first
identity that is still free. -/
def Shape.create (next : ObjectId) : Shape → HostValue × ObjectId
  | .plain content => (.plain next content, next + 1)
  | .list items =>
    let (created, free) := Shape.createItems (next + 1) items
    (.list next created, free)
  | .boxed inside =>
    let (created, free) := Shape.create (next + 1) inside
    (.boxed next created, free)

/-- New objects for items, in order. -/
def Shape.createItems (next : ObjectId) : List Shape → List HostValue × ObjectId
  | [] => ([], next)
  | item :: rest =>
    let (first, free) := Shape.create next item
    let (others, free) := Shape.createItems free rest
    (first :: others, free)

end

end HostBridge
