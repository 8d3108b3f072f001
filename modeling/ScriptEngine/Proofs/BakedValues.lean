import ScriptEngine.Proofs.Evolution
import ScriptEngine.Proofs.Overloads
/-!
# Baked values

* `Evaluation.readProperty_baked`, `Evaluation.writeProperty_baked`, `Evaluation.writeIndex_baked` :
  what a baked value is to a read and to a write.
* **`Evaluation.baked_for_good`** : a baked value stays what it is as long as its instance lives.

Reads and writes are those of a script (`get_property`, `set_property`, `write_index`), in every
state that an engine comes to, those inside an `init` included. What a list holds that is baked is
not baked itself. Writes that the host makes to its own objects are out of scope, as they do not see
script instances.
-/

namespace ScriptEngine.Evaluation

open Run

variable {again : Calls} {w w₀ w₁ : World} {o v : Value} {object : ObjectId} {baked : Fields}
  {name : String}

/-! ## Reads and writes -/

section Held

variable (ho : objectOf? w.heap o = some object) (hb : w.heap.Bakes object baked)
  (hv : baked.get? (accessorName "get" name) = some v)
include ho hb hv

omit ho in
theorem isBaked_eq_true : isBaked w.heap object name = true := by
  rw [isBaked, hb.baked_eq, hv]
  rfl

theorem bakedProperty?_eq {this : HostId} (hthis : o = .host this) :
    Host.bakedProperty? w.heap this name = some v := by
  subst hthis
  have ho : Host.scriptObject? w.heap this = some object := ho
  rw [Host.bakedProperty?, Host.baked?, ho]
  exact (congrArg (Fields.get? · _) hb.baked_eq).trans hv

/-- A read answers with the baked value. -/
theorem readProperty_baked (strict : Bool) : readProperty again strict o name w = .ok v w := by
  cases o with
  | object object =>
    cases ho
    have hsource : sourceOf w.heap object name = .value v := by
      have hnone := hb.fields name (by rw [hv]; rfl)
      simp only [sourceOf, hnone, hb.baked_eq, hv, Option.none_or]
    exact bind_of_ok (read_of_eq (f := fun w => sourceOf w.heap object name) hsource)
  | host this =>
    refine Host.getProperty_eq.trans ?_
    rw [bakedProperty?_eq ho hb hv rfl]
  | _ => cases ho

/-- A write is refused and changes nothing. -/
theorem writeProperty_baked (value : Value) :
    writeProperty again o name value w = .error (.runtime (.readOnlyProperty name)) w := by
  cases o with
  | object id =>
    cases ho
    exact (bind_of_ok (read_of_eq (isBaked_eq_true hb hv))).trans rfl
  | host this =>
    have hbaked := bakedProperty?_eq ho hb hv rfl
    exact (bind_of_ok (read_of_eq hbaked)).trans rfl
  | _ => cases ho

/-- A write by index is refused too, where an instance has parts by index at all. -/
theorem writeIndex_baked {id : ObjectId} (hid : o = .object id) {key : Value}
    (hkey : w.heap.text key = name) (value : Value) :
    writeIndex o key value w = .error (.runtime (.readOnlyProperty name)) w := by
  subst hid
  cases ho
  refine (bind_of_ok (read_of_eq (f := fun w => w.heap.text key) hkey)).trans ?_
  exact (bind_of_ok (read_of_eq (isBaked_eq_true hb hv))).trans rfl

end Held

/-! ## As long as the instance lives -/

/-- **Baked values are there for good.** Let `o` be a new instance of a script class, with or
without a host class that it extends, into which the values `baked` are baked. In every state that
is reached from there, each name whose getter has a baked value reads as that value; writing it, by
name or on an instance without a host class by index, is refused and leaves the state as it is; and
the script object of the instance has no field of the name. -/
theorem baked_for_good {id : ClassId} {args : List Value} (hnew : newOf id baked args w₀ = .ok o w₁)
    (hreach : w₁.Reaches w) (hv : baked.get? (accessorName "get" name) = some v) :
    (∀ again strict, readProperty again strict o name w = .ok v w) ∧
    (∀ again value,
      writeProperty again o name value w = .error (.runtime (.readOnlyProperty name)) w) ∧
    (∀ id key value, o = .object id → w.heap.text key = name →
      writeIndex o key value w = .error (.runtime (.readOnlyProperty name)) w) ∧
    ∃ object, objectOf? w.heap o = some object ∧
      (w.heap.object object).fields.get? name = none := by
  obtain ⟨object, ho₁, hb₁⟩ := newOf_bakes hnew
  have ho := objectOf?_evolves hreach.evolves ho₁
  have hb := hreach.evolves.bakes hb₁
  refine ⟨fun again strict => readProperty_baked ho hb hv strict,
    fun again value => writeProperty_baked ho hb hv value,
    fun id key value hid hkey => writeIndex_baked ho hb hv hid hkey value,
    object, ho, hb.fields name ?_⟩
  rw [hv]
  rfl

/-- A state with a class `Lamp` without methods, and nothing else made by a script. -/
def lampWorld (block : Option (List Stmt)) : World :=
  { World.initial .default 0 0 with
    heap := { Heap.initial with classes := #[⟨"Lamp", [], none, none, block, none⟩] } }

/-- A lamp whose name is baked in, after a field of another name was set. -/
theorem lamp_baked_for_good : ∃ w₁ w,
    newOf ⟨0⟩ (bakedFrom [("name", .string "oil")]) [] (lampWorld none) = .ok (.object ⟨0⟩) w₁ ∧
    w₁.Reaches w ∧ (w.heap.object ⟨0⟩).fields.get? "lit" = some (.bool true) ∧
    readProperty (machine 0) true (.object ⟨0⟩) "name" w = .ok (.string "oil") w := by
  obtain ⟨w₁, hnew⟩ : ∃ w₁, newOf ⟨0⟩ (bakedFrom [("name", .string "oil")]) [] (lampWorld none) =
    .ok (.object ⟨0⟩) w₁ := ⟨_, rfl⟩
  have hset : isBaked w₁.heap ⟨0⟩ "lit" = false := by
    cases hnew
    decide
  have hreach := Relation.ReflTransGen.single (World.Step.within (.field (.bool true) hset))
  have hv : (bakedFrom [("name", .string "oil")]).get? (accessorName "get" "name") =
      some (.string "oil") := by decide
  refine ⟨w₁, _, hnew, hreach, ?_, (baked_for_good hnew hreach hv).1 (machine 0) true⟩
  cases hnew
  rfl

end ScriptEngine.Evaluation
