import ScriptEngine.World
/-!
# Scopes

A scope is one level of names inside the one it was made in. Looking a name up goes outwards to the
nearest level that binds it; declaring a name touches one level alone.

* `Heap.find?` : the nearest scope that binds a name, and its binding.
* `Heap.lookup`, `Heap.isConstant?`, `Heap.bindsLocally` : what is asked of a name (`lookup`,
  `is_constant`, `contains_local`).
* `Heap.declareError?`, `Heap.assignTarget` : why a name may not be declared in a scope, and which
  scope an assignment to it changes or why there is none (`declare`, `assign`).
* `Heap.bind` : what both of them do in the end. Declaring a name again replaces what it was bound
  to.
* `Heap.localBindings` : the names of one level, sorted (`local_bindings`).
* `Heap.addRoot`, `Heap.addChild` : new scopes.

Parents have smaller identifiers, so a search goes through no more levels than the identifier it
begins with allows. Releasing the values of a scope is out of scope, as the collector is.
-/

namespace ScriptEngine

/-- What a level binds a name to. -/
def Scope.binding? (s : Scope) (name : String) : Option Binding := s.bindings.lookup name

/-- Replaces the binding of a name or adds one in front. -/
def putBinding (name : String) (b : Binding) (bindings : List (String × Binding)) :
    List (String × Binding) :=
  if bindings.any (·.1 == name) then bindings.map fun e => if e.1 == name then (name, b) else e
  else (name, b) :: bindings

namespace Heap

/-- The scope with an identifier; one that is not in the heap binds nothing. -/
def scope (h : Heap) (s : ScopeId) : Scope := h.scopes.getD s.index ⟨none, []⟩

/-- The scope around a scope. -/
def parent? (h : Heap) (s : ScopeId) : Option ScopeId := (h.scope s).parent

/-- The nearest of `s` and the scopes around it that binds a name, and its binding, looking at no
more than `levels` scopes. -/
def findFrom (h : Heap) (name : String) : (levels : Nat) → ScopeId → Option (ScopeId × Binding)
  | 0, _ => none
  | levels + 1, s =>
    let here := h.scope s
    match here.binding? name with
    | some b => some (s, b)
    | none =>
      match here.parent with
      | some p => findFrom h name levels p
      | none => none

/-- The nearest scope that binds a name, and its binding. Parents have smaller identifiers, so there
are no more levels than the identifier allows. -/
def find? (h : Heap) (s : ScopeId) (name : String) : Option (ScopeId × Binding) :=
  h.findFrom name (s.index + 1) s

/-- What a name is bound to, if it is. -/
def lookup (h : Heap) (s : ScopeId) (name : String) : Option Value :=
  (h.find? s name).map (·.2.value)

/-- Whether the nearest binding of a name is constant. -/
def isConstant? (h : Heap) (s : ScopeId) (name : String) : Option Bool :=
  (h.find? s name).map (·.2.constant)

/-- Whether a scope itself binds a name. -/
def bindsLocally (h : Heap) (s : ScopeId) (name : String) : Bool :=
  ((h.scope s).binding? name).isSome

/-- The names a scope itself binds and their values, sorted by name. -/
def localBindings (h : Heap) (s : ScopeId) : List (String × Value) :=
  ((h.scope s).bindings.map fun (name, b) => (name, b.value)).mergeSort
    fun a b => decide (a.1 ≤ b.1)

/-- Binds a name in a scope, whatever it was bound to. -/
def bind (h : Heap) (s : ScopeId) (name : String) (b : Binding) : Heap :=
  { h with scopes := h.scopes.modify s.index fun sc =>
      { sc with bindings := putBinding name b sc.bindings } }

/-- Why a name may not be declared in a scope: it is constant there. -/
def declareError? (h : Heap) (s : ScopeId) (name : String) : Option RuntimeError :=
  match (h.scope s).binding? name with
  | some ⟨_, true⟩ => some (.constantReassignment name)
  | _ => none

/-- The scope that an assignment to a name changes, or why there is none. -/
def assignTarget (h : Heap) (s : ScopeId) (name : String) : Except RuntimeError ScopeId :=
  match h.find? s name with
  | none => .error (.undefinedVariable name)
  | some (owner, b) => if b.constant then .error (.constantReassignment name) else .ok owner

/-- Adds a root scope. -/
def addRoot (h : Heap) : ScopeId × Heap :=
  (⟨h.scopes.size⟩, { h with scopes := h.scopes.push ⟨none, []⟩ })

/-- Adds a scope inside another. -/
def addChild (h : Heap) (parent : ScopeId) : ScopeId × Heap :=
  (⟨h.scopes.size⟩, { h with scopes := h.scopes.push ⟨some parent, []⟩ })

end Heap

end ScriptEngine
