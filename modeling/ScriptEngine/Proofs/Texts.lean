import ScriptEngine.Proofs.Descents
/-!
# The texts of values

The text of a value is put together from the texts of its items or fields. A list or a plain object
inside itself is shown as a mark, so there is a text for everything; and where nothing is inside
itself there is no mark, however often something is shown.

* `Heap.shownParts`, `Heap.spell` : what is shown inside a value, and the text that is put together
  from the texts of that.
* `Heap.Writes` : making a text, without a bound on how deep it goes.
* `Heap.Renders` : making a text without a look at what a value is inside of.
* **`Heap.texts_end`** : making a text comes to an end, and where nothing that is shown is inside
  itself the text is the one that is made without looking.

These are the text of `print` and of templates, and `repr`. Host objects describe themselves
(`describe`), in which no other value is shown.
-/

namespace ScriptEngine

namespace Heap

open Relation

variable {h : Heap} {quoting : Bool} {levels : Nat} {path : List Value} {u v : Value}
    {s s' : String}

/-! ## One step of a text -/

/-- What is shown inside the text of a value: the items of a list, and what the fields of a plain
object hold. -/
def shownParts (h : Heap) : Value → List Value
  | .list id => (h.list id).toList
  | .object id => if (h.object id).cls.isNone then (h.object id).fields.map (·.2) else []
  | _ => []

/-- The text of a value, given the texts of what is shown inside it. -/
def spell (h : Heap) (quoting : Bool) (texts : List String) : Value → String
  | .null => "null"
  | .bool b => if b then "true" else "false"
  | .number n => Number.scriptText n
  | .float f => Number.scriptText32 f ++ if quoting then "f" else ""
  | .string s => if quoting then "\"" ++ s ++ "\"" else s
  | .list _ => "[" ++ String.intercalate ", " texts ++ "]"
  | .object id =>
    match (h.object id).cls with
    | some c => "<" ++ h.className c ++ " instance>"
    | none =>
      let fields := List.zipWith (fun name text => name ++ ": " ++ text) (h.object id).fields.names
        texts
      "\x7b" ++ String.intercalate ", " fields ++ "\x7d"
  | .scriptClass id => "<class " ++ h.className id ++ ">"
  | .function id => "<fn " ++ h.functionName id ++ ">"
  | .native id => "<native fn " ++ ((h.native? id).map (·.name)).getD "" ++ ">"
  | .boundMethod _ method => "<method " ++ h.functionName method ++ ">"
  | .hostMethod _ name => "<host method " ++ name ++ ">"
  | .hostClass id => "<host class " ++ (h.hostClass id).name ++ ">"
  | .host id => h.describe id

/-- What stands for a list or a plain object inside itself. -/
def mark : Value → String
  | .list _ => "[...]"
  | _ => "\x7b...\x7d"

/-- The first value shows the second one. -/
def Shows (h : Heap) (v u : Value) : Prop := u ∈ h.shownParts v

/-- What shows something is in the heap. -/
theorem mem_allContainers_of_shownParts (hv : h.shownParts v ≠ []) : v ∈ h.allContainers := by
  cases v with
  | list id =>
    refine list_mem_allContainers (Nat.lt_of_not_le fun hid => hv ?_)
    simp [shownParts, list_of_size_le hid]
  | object id =>
    refine object_mem_allContainers (Nat.lt_of_not_le fun hid => hv ?_)
    simp [shownParts, object_of_size_le hid]
  | _ => exact absurd rfl hv

/-- Inside itself a value that shows something is a mark. -/
theorem textWithin_of_mem (hv : h.shownParts v ≠ []) (hinside : v ∈ path) :
    h.textWithin quoting (levels + 1) path v = mark v := by
  cases v with
  | list id => simp [textWithin, mark, hinside]
  | object id =>
    cases hcls : (h.object id).cls with
    | none => simp [textWithin, mark, hcls, hinside]
    | some c => simp [shownParts, hcls] at hv
  | _ => exact absurd rfl hv

/-- Anywhere else its text is put together from the texts of what it shows. -/
theorem textWithin_of_not_mem (hnew : v ∉ path) : h.textWithin quoting (levels + 1) path v =
    h.spell quoting ((h.shownParts v).map (h.textWithin quoting levels (v :: path))) v := by
  cases v with
  | list id => simp [textWithin, spell, shownParts, hnew]
  | object id =>
    cases hcls : (h.object id).cls with
    | none =>
      simp only [textWithin, spell, shownParts, hcls, Fields.names]
      simp [hnew, List.zipWith_map, List.zipWith_self]
    | some c => simp [textWithin, spell, hcls]
  | _ => rfl

/-! ## Texts without a bound -/

/-- Making the text of a value inside the values on the path, as deep as it goes. -/
inductive Writes (h : Heap) (quoting : Bool) : List Value → Value → String → Prop
  | inside {path : List Value} {v : Value} (hinside : v ∈ path) : Writes h quoting path v (mark v)
  | parts {path : List Value} {v : Value} {text : Value → String} (hnew : v ∉ path)
      (hparts : ∀ u ∈ h.shownParts v, Writes h quoting (v :: path) u (text u)) :
      Writes h quoting path v (h.spell quoting ((h.shownParts v).map text) v)

/-- Making the text of a value as deep as it goes, whatever it is inside of. -/
inductive Renders (h : Heap) (quoting : Bool) : Value → String → Prop
  | parts {v : Value} {text : Value → String}
      (hparts : ∀ u ∈ h.shownParts v, Renders h quoting u (text u)) :
      Renders h quoting v (h.spell quoting ((h.shownParts v).map text) v)

/-- A value has no more than one text. -/
theorem Writes.unique (hs : h.Writes quoting path v s) (hs' : h.Writes quoting path v s') :
    s = s' := by
  induction hs generalizing s' with
  | inside hinside =>
    cases hs' with
    | inside => rfl
    | parts hnew => exact absurd hinside hnew
  | parts hnew _ ih =>
    cases hs' with
    | inside hinside => exact absurd hinside hnew
    | parts _ hparts' => rw [List.map_congr_left fun u hu => ih u hu (hparts' u hu)]

theorem Renders.unique (hs : h.Renders quoting v s) (hs' : h.Renders quoting v s') : s = s' := by
  induction hs generalizing s' with
  | parts _ ih =>
    obtain ⟨hparts'⟩ := hs'
    rw [List.map_congr_left fun u hu => ih u hu (hparts' u hu)]

/-- One level more than there are lists and objects is enough for a text. -/
theorem writes_textWithin (h : Heap) (quoting : Bool) (v : Value) :
    h.Writes quoting [] v (h.textWithin quoting (h.containers + 1) [] v) := by
  refine descent_induction h.shownParts
    (P := fun levels path v => h.Writes quoting path v (h.textWithin quoting levels path v))
    (fun _ => mem_allContainers_of_shownParts) (fun levels path v hpath hparts => ?_) v
  by_cases hinside : v ∈ path
  · rw [textWithin_of_mem (hpath v hinside) hinside]
    exact .inside hinside
  · rw [textWithin_of_not_mem hinside]
    exact .parts hinside (hparts hinside)

theorem writes_iff :
    h.Writes quoting [] v s ↔ s = h.textWithin quoting (h.containers + 1) [] v where
  mp hs := hs.unique (writes_textWithin h quoting v)
  mpr hs := hs ▸ writes_textWithin h quoting v

/-! ## Texts without marks -/

/-- Inside values that reach it, a value that reaches none of them again has no mark in its text. -/
theorem Writes.renders (hs : h.Writes quoting path v s) (hv : ¬ Circular h.Shows v)
    (hpath : ∀ p ∈ path, TransGen h.Shows p v) : h.Renders quoting v s := by
  induction hs with
  | @inside path v hinside => exact absurd (.of_return (hpath v hinside)) hv
  | @parts path v text hnew hparts ih =>
    refine .parts fun u hu => ih u hu (fun hcircular => hv (.head hu hcircular)) ?_
    exact List.forall_mem_cons.mpr ⟨.single hu, fun p hp => (hpath p hp).tail hu⟩

/-- Nothing is inside itself in a text that is made without looking. -/
theorem Renders.not_circular (hs : h.Renders quoting v s) : ¬ Circular h.Shows v := by
  induction hs with
  | parts _ ih =>
    intro hv
    obtain ⟨u, hu, hcircular⟩ := hv.exists_head
    exact ih u hu hcircular

theorem renders_iff : h.Renders quoting v s ↔
    ¬ Circular h.Shows v ∧ s = h.textWithin quoting (h.containers + 1) [] v := by
  have hrenders (hv : ¬ Circular h.Shows v) :
      h.Renders quoting v (h.textWithin quoting (h.containers + 1) [] v) :=
    (writes_textWithin h quoting v).renders hv (List.forall_mem_nil _)
  constructor
  · exact fun hs => ⟨hs.not_circular, hs.unique (hrenders hs.not_circular)⟩
  · rintro ⟨hv, rfl⟩
    exact hrenders hv

/-- **Texts come to an end**, both of them, for every value of every heap: there is one text that is
made, whatever holds itself. Making it without looking comes to an end exactly where no list and no
plain object that is shown is inside itself, and then makes the same text: what is shown several
times is spelled out each time. -/
theorem texts_end (h : Heap) (v : Value) (s : String) :
    (h.Writes false [] v s ↔ s = h.text v) ∧ (h.Writes true [] v s ↔ s = h.repr v) ∧
    (h.Renders false v s ↔ ¬ Circular h.Shows v ∧ s = h.text v) ∧
    (h.Renders true v s ↔ ¬ Circular h.Shows v ∧ s = h.repr v) :=
  ⟨writes_iff, writes_iff, renders_iff, renders_iff⟩

/-- A list with itself in it and another list twice: the one is marked, the other is spelled out
both times. -/
example : { (World.initial .default 0 0).heap with
    lists := #[#[.list ⟨0⟩, .list ⟨1⟩, .list ⟨1⟩], #[.null]] }.text (.list ⟨0⟩) =
      "[[...], [null], [null]]" := by
  decide

end Heap

end ScriptEngine
