import ScriptEngine.Value.Access
/-!
# Equality of values

Lists and plain objects are equal when their parts are; instances of classes and functions only to
themselves; numbers by their value whatever their precision. Values that contain themselves are
compared by taking for equal what is already being compared.

* `Heap.equal` : equality of values (`equals`, `same_reference`).
* `Heap.hostEqual` : equality of host objects (`host_eq`), which the class of the left one decides.
  An instance of a script class has no say of its own: it equals itself alone, whatever host
  instance it holds.
* `HostData.equal` : equality of host data, given that of host objects.

The equality of a host class is modelled by a slot: two objects are equal if theirs hold equal data.
Classes of a host that compare otherwise are out of scope.
-/

namespace ScriptEngine

/-- Equality of numbers that may be missing; a missing one differs from everything. -/
def equalNumbers (a b : Option Float) : Bool :=
  match a, b with
  | some x, some y => x == y
  | _, _ => false

mutual

/-- Equality of host data. Numbers are compared by value, objects by `same`. -/
def HostData.equal (same : HostId → HostId → Bool) : HostData → HostData → Bool
  | .null, .null => true
  | .bool a, .bool b => a == b
  | .string a, .string b => a == b
  | .list a, .list b => equalItems same a b
  | .map a, .map b => equalEntries same a b
  | .object a, .object b => same a b
  | .hostClass a, .hostClass b => a == b
  | a, b => equalNumbers a.asNumber? b.asNumber?

/-- Equality of the items of lists. -/
def equalItems (same : HostId → HostId → Bool) : List HostData → List HostData → Bool
  | [], [] => true
  | a :: as, b :: bs => a.equal same b && equalItems same as bs
  | _, _ => false

/-- Equality of the entries of maps. -/
def equalEntries (same : HostId → HostId → Bool) :
    List (String × HostData) → List (String × HostData) → Bool
  | [], [] => true
  | (k, a) :: as, (l, b) :: bs => k == l && a.equal same b && equalEntries same as bs
  | _, _ => false

end

namespace Heap

/-- What a slot of a host object holds; one that was never set holds null. -/
def slot (h : Heap) (id : HostId) (name : String) : HostData :=
  match h.hostObject id with
  | .plain _ slots => (slots.lookup name).getD .null
  | _ => .null

/-- Equality of host objects as the class of the first one decides, where the objects in their slots
are compared through no more than `levels` others. The second one may be a script instance around
the host instance that is compared. -/
def hostEqualWithin (h : Heap) : (levels : Nat) → HostId → HostId → Bool
  | 0, _, _ => false
  | levels + 1, a, b =>
    a == b ||
      match h.hostObject a, h.hostObject (h.concrete b) with
      | .plain cls _, .plain .. =>
        match (h.hostClass cls).equality with
        | some slot =>
          (h.slot a slot).equal (hostEqualWithin h levels) (h.slot (h.concrete b) slot)
        | none => false
      | .bytes x, .bytes y => x == y
      | _, _ => false

/-- Equality of host objects. -/
def hostEqual (h : Heap) (a b : HostId) : Bool := h.hostEqualWithin (h.hostObjects.size + 1) a b

/-- Equality of values, where the pairs in `assumed` are being compared further up and are taken for
equal. -/
def equalWithin (h : Heap) :
    (levels : Nat) → (assumed : List (Value × Value)) → Value → Value → Bool
  | 0, _, _, _ => false
  | levels + 1, assumed, a, b =>
    match a, b with
    | .null, .null => true
    | .bool x, .bool y => x == y
    | .string x, .string y => x == y
    | .list x, .list y =>
      x == y || assumed.contains (a, b) ||
        let xs := h.list x
        let ys := h.list y
        xs.size == ys.size && (xs.toList.zip ys.toList).all fun (v, w) =>
          equalWithin h levels ((a, b) :: assumed) v w
    | .object x, .object y =>
      x == y ||
        let o := h.object x
        let p := h.object y
        o.cls.isNone && p.cls.isNone && (assumed.contains (a, b) ||
          o.fields.length == p.fields.length && o.fields.all fun (name, v) =>
            match p.fields.get? name with
            | some w => equalWithin h levels ((a, b) :: assumed) v w
            | none => false)
    | .scriptClass x, .scriptClass y => x == y
    | .function x, .function y => x == y
    | .native x, .native y => x == y
    | .boundMethod r x, .boundMethod s y => x == y && r == s
    | .hostMethod r x, .hostMethod s y => x == y && r == s
    | .hostClass x, .hostClass y => x == y
    | .host x, .host y => h.hostEqual x y
    | _, _ => equalNumbers a.asNumber? b.asNumber?

/-- Equality of values. No chain of comparisons is longer than there are pairs of containers. -/
def equal (h : Heap) (a b : Value) : Bool :=
  h.equalWithin (h.lists.size * h.lists.size + h.objects.size * h.objects.size + 1) [] a b

end Heap

end ScriptEngine
