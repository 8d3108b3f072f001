import ScriptEngine.Value.Access
import ScriptEngine.Text.Case
/-!
# Members of host classes

Members are looked for in a class and then in the classes it extends.

* `accessorName`, `getterNames` : the name of the getter or setter of a property (`accessor_name`).
* `Heap.methodsNamed` : the overloads of a call, in the order they are tried (`methods_named`).
* `Heap.hasMethod`, `Heap.findField?`, `Heap.findNested?` : the other members (`has_method`,
  `find_field`, `find_nested`).
* `Heap.virtualMethods` : what a script class may override, one method for each name and number of
  parameters (`virtual_methods`).
* `register` : a class under a path. `resolve` : the class that an import names (`resolve`): the one
  that is registered under the path, or one nested in the class under its longest registered
  beginning.
-/

namespace ScriptEngine

/-- The name of an accessor of a property: `get` and `width` make `getWidth`. -/
def accessorName (verb property : String) : String := verb ++ Text.capitalize property

/-- The getters of a property, the preferred one first. -/
def getterNames (property : String) : List String :=
  [accessorName "get" property, accessorName "is" property]

namespace Heap

/-- The methods of a class and of those it extends. -/
def allMethods (h : Heap) (cls : HostClassId) : List HostMethod :=
  (h.ancestry cls).flatMap fun c => (h.hostClass c).methods

/-- The methods of a name with so many parameters. -/
def methodsNamed (h : Heap) (cls : HostClassId) (name : String) (arity : Nat) (static : Bool) :
    List HostMethod :=
  (h.allMethods cls).filter fun m =>
    m.name == name && m.params.length == arity && m.isStatic == static

/-- Whether there is a method of a name. -/
def hasMethod (h : Heap) (cls : HostClassId) (name : String) (static : Bool) : Bool :=
  (h.allMethods cls).any fun m => m.name == name && m.isStatic == static

/-- The field of a name. -/
def findField? (h : Heap) (cls : HostClassId) (name : String) (static : Bool) : Option HostField :=
  ((h.ancestry cls).flatMap fun c => (h.hostClass c).fields).find? fun f =>
    f.name == name && f.isStatic == static

/-- The nested class of a name. Nested classes are not inherited. -/
def findNested? (h : Heap) (cls : HostClassId) (name : String) : Option HostClassId :=
  (h.hostClass cls).nested.find? fun c => (h.hostClass c).name == name

/-- Of methods with the same name and number of parameters, the first one. -/
def firstOfEach (seen : List (String × Nat)) : List HostMethod → List HostMethod
  | [] => []
  | m :: ms =>
    let key := (m.name, m.params.length)
    if seen.contains key then firstOfEach seen ms else m :: firstOfEach (key :: seen) ms

/-- The methods a script class may override, the most derived of each name and number of
parameters. -/
def virtualMethods (h : Heap) (cls : HostClassId) : List HostMethod :=
  firstOfEach [] ((h.allMethods cls).filter fun m => m.kind == .virtual)

end Heap

/-! ### Imports -/

/-- Registers a class under a path; an earlier class of the path is forgotten. -/
def register (path : String) (cls : HostClassId) (registry : List (String × HostClassId)) :
    List (String × HostClassId) :=
  (path, cls) :: registry.filter (·.1 != path)

/-- Descends from a class through nested classes. -/
def descend (h : Heap) (cls : HostClassId) (names : List String) : Option HostClassId :=
  names.foldlM (fun c name => h.findNested? c name) cls

/-- The class of the longest registered path among the beginnings of `segments` with no more than
`length` names, and the names after it. -/
def longestBeginning (registry : List (String × HostClassId)) (segments : List String) :
    (length : Nat) → Option (HostClassId × List String)
  | 0 => none
  | length + 1 =>
    match registry.lookup (String.intercalate "." (segments.take (length + 1))) with
    | some cls => some (cls, segments.drop (length + 1))
    | none => longestBeginning registry segments length

/-- The class a path names: the one registered there, or the one nested at the end of the path in
the class of its longest registered beginning. -/
def resolve (h : Heap) (registry : List (String × HostClassId)) (path : String) :
    Option HostClassId :=
  let segments := path.splitOn "."
  match longestBeginning registry segments segments.length with
  | some (cls, names) => descend h cls names
  | none => none

/-- The registered paths in order. -/
def registeredPaths (registry : List (String × HostClassId)) : List String :=
  (registry.map (·.1)).mergeSort fun a b => decide (a ≤ b)

end ScriptEngine
