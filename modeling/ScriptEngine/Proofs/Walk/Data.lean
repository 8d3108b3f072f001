import ScriptEngine.Evaluation.Property
import ScriptEngine.Library.Builtins
import ScriptEngine.Proofs.Walk.Rules
/-!
# Data under a law

Operators, scopes, conversions and nearly all of the library start no code again. Whatever the law
is, they obey it: the heap is changed in the ways that the law allows, errors are not placed yet,
and values were given, or found in the state, or are new data. Stated here for the operators
(`binary_op`, `read_index`), the scopes (`declare`, `assign`, `get`), the natives but for `runOn`,
and the way from host data to values.

* `Law.brings_ofNode`, `Law.brings_fromHost` : new values from outside, by induction over the data.
* `Script.declare_obeys`, `Script.assign_obeys`, `Script.get_knows` : the three uses of a name.
* `Operators.binary_knows`, `Operators.readIndex_knows` : operators.
* `Library.answer_knows` : every function of the library but the one that hands a task over.

Out of scope: what starts code again, that is `runOn`, calls and properties of host objects.
-/

namespace ScriptEngine

open Run
open Faulty (fault)

/-! ## Fields -/

namespace Fields

variable {P : Value → Prop} {fields : Fields} {name : String} {v : Value}

theorem of_get? (hf : ∀ e ∈ fields, P e.2) (hget : fields.get? name = some v) : P v := by
  obtain ⟨before, rest, rfl, -⟩ := List.lookup_eq_some_iff.mp hget
  exact hf (name, v) (List.mem_append_right _ List.mem_cons_self)

theorem forall_put (hf : ∀ e ∈ fields, P e.2) (hv : P v) :
    ∀ e ∈ Fields.put name v fields, P e.2 := by
  induction fields with
  | nil =>
    intro e he
    obtain rfl := List.mem_singleton.mp he
    exact hv
  | cons e fields ih =>
    obtain ⟨he, hfields⟩ := List.forall_mem_cons.mp hf
    unfold Fields.put
    split
    · exact List.forall_mem_cons.mpr ⟨hv, hfields⟩
    · exact List.forall_mem_cons.mpr ⟨he, ih hfields⟩

theorem forall_ofPairs {pairs : List (String × Value)} (hp : ∀ e ∈ pairs, P e.2) :
    ∀ e ∈ Fields.ofPairs pairs, P e.2 := by
  suffices hfold : ∀ fields : Fields, (∀ e ∈ fields, P e.2) →
      ∀ e ∈ pairs.foldl (fun fields e => fields.put e.1 e.2) fields, P e.2 from hfold [] nofun
  induction pairs with
  | nil => exact fun _ hfields => hfields
  | cons e pairs ih =>
    obtain ⟨he, hpairs⟩ := List.forall_mem_cons.mp hp
    intro fields hfields
    exact ih hpairs _ (forall_put hfields he)

end Fields

/-- The answer, if there is one, is neither a native function nor a class of a script. -/
def CommonOk (x : Except RuntimeError Value) : Prop := ∀ v, x = .ok v → v.Common

section CommonOk

variable {α : Type} {v : Value}

theorem commonOk_ok (hv : v.Common) : CommonOk (.ok v) := by
  rintro _ ⟨⟩
  exact hv

theorem commonOk_error (e : RuntimeError) : CommonOk (.error e) := nofun

theorem commonOk_bind {x : Except RuntimeError α} {k : α → Except RuntimeError Value}
    (hk : ∀ a, CommonOk (k a)) : CommonOk (x >>= k) := by
  cases x with
  | ok a => exact hk a
  | error e => exact commonOk_error e

end CommonOk

variable {L : Law} {p : L.Place} {h : Heap} {w : World} {w' : L.Case → World} {ε α : Type}

/-! ## New values -/

/-- The heap that there is may stay. -/
theorem Terms.Admits.refl (hw : L.Holds p w w') : L.Admits p w w' w.heap where
  holds := by
    have hsame : (fun i => (w' i).withHeap w.heap) = w' := funext fun i => by
      rw [← L.heap_eq hw i]
      rfl
    rw [hsame]
    exact hw
  keeps := L.keeps_refl p w.heap

theorem Terms.Admits.trans {h' : Heap} (ha : L.Admits p w w' h)
    (hb : L.Admits p (w.withHeap h) (fun i => (w' i).withHeap h) h') : L.Admits p w w' h' :=
  ⟨hb.holds, L.keeps_trans ha.keeps hb.keeps⟩

namespace Law

/-- A heap that may take the place of that of the state, with a value that is known in it. -/
structure Brings (L : Law) (p : L.Place) (w : World) (w' : L.Case → World) (new : Value × Heap) :
    Prop where
  admits : L.Admits p w w' new.2
  known : L.Known new.2 new.1

/-- The same of several values. -/
structure BringsAll (L : Law) (p : L.Place) (w : World) (w' : L.Case → World) (values : List Value)
    (h : Heap) :
    Prop where
  admits : L.Admits p w w' h
  known : ∀ v ∈ values, L.Known h v

theorem Brings.same {v : Value} (hw : L.Holds p w w') (hv : v.Common) :
    L.Brings p w w' (v, w.heap) :=
  ⟨.refl hw, L.known_common hv⟩

theorem BringsAll.nil (hw : L.Holds p w w') : L.BringsAll p w w' [] w.heap :=
  ⟨.refl hw, nofun⟩

/-- What is known stays known while the others are made. -/
theorem BringsAll.cons {v : Value} {vs : List Value} {h' : Heap} (hv : L.Brings p w w' (v, h))
    (hvs : L.BringsAll p (w.withHeap h) (fun i => (w' i).withHeap h) vs h') :
    L.BringsAll p w w' (v :: vs) h' where
  admits := hv.admits.trans hvs.admits
  known := List.forall_mem_cons.mpr
    ⟨L.known_later (L.later_of_keeps hvs.admits.keeps) hv.known, hvs.known⟩

theorem BringsAll.addList {vs : List Value} (hvs : L.BringsAll p w w' vs h) :
    L.Brings p w w' (h.addList vs.toArray) where
  admits := hvs.admits.trans
    (L.alters hvs.admits.holds (.list fun v hv => hvs.known v (List.mem_toArray.mp hv)))
  known := L.known_common trivial

theorem BringsAll.addFields {pairs : List (String × Value)}
    (hvs : L.BringsAll p w w' (pairs.map (·.2)) h) :
    L.Brings p w w' (h.addFields (Fields.ofPairs pairs)) where
  admits := hvs.admits.trans <| L.alters hvs.admits.holds <| .fields <|
    Fields.forall_ofPairs (P := L.Known h) fun _ he => hvs.known _ (List.mem_map_of_mem he)
  known := L.known_common trivial

mutual

theorem brings_ofNode {w : World} {w' : L.Case → World} (hw : L.Holds p w w') :
    ∀ n : Interchange.Node,
    L.Brings p w w' (w.heap.ofNode n)
  | .null | .bool _ | .number _ | .string _ => .same hw trivial
  | .array items => (brings_ofNodes hw items).addList
  | .object members => (brings_ofMembers hw members).addFields

theorem brings_ofNodes {w : World} {w' : L.Case → World} (hw : L.Holds p w w') :
    ∀ ns : List Interchange.Node, L.BringsAll p w w' (w.heap.ofNodes ns).1 (w.heap.ofNodes ns).2
  | [] => .nil hw
  | n :: ns => .cons (brings_ofNode hw n) (brings_ofNodes (brings_ofNode hw n).admits.holds ns)

theorem brings_ofMembers {w : World} {w' : L.Case → World} (hw : L.Holds p w w') :
    ∀ ns : List (String × Interchange.Node),
      L.BringsAll p w w' ((w.heap.ofMembers ns).1.map (·.2)) (w.heap.ofMembers ns).2
  | [] => .nil hw
  | (_, n) :: ns => .cons (brings_ofNode hw n)
      (brings_ofMembers (brings_ofNode hw n).admits.holds ns)

end

mutual

theorem brings_fromHost {w : World} {w' : L.Case → World} (hw : L.Holds p w w') : ∀ d : HostData,
    L.Brings p w w' (w.heap.fromHost d)
  | .null | .int _ | .long _ | .float _ | .double _ | .bool _ | .string _ | .object _ | .hostClass
    _ =>
    .same hw trivial
  | .list items => (brings_fromHostItems hw items).addList
  | .map entries => (brings_fromHostEntries hw entries).addFields

theorem brings_fromHostItems {w : World} {w' : L.Case → World} (hw : L.Holds p w w') :
    ∀ ds : List HostData, L.BringsAll p w w' (w.heap.fromHostItems ds).1 (w.heap.fromHostItems ds).2
  | [] => .nil hw
  | d :: ds => .cons (brings_fromHost hw d)
      (brings_fromHostItems (brings_fromHost hw d).admits.holds ds)

theorem brings_fromHostEntries {w : World} {w' : L.Case → World} (hw : L.Holds p w w') :
    ∀ ds : List (String × HostData),
      L.BringsAll p w w' ((w.heap.fromHostEntries ds).1.map (·.2)) (w.heap.fromHostEntries ds).2
  | [] => .nil hw
  | (_, d) :: ds =>
    .cons (brings_fromHost hw d) (brings_fromHostEntries (brings_fromHost hw d).admits.holds ds)

end

end Law

/-- The run obeys the law, and its value may be about. -/
abbrev Run.Knows [Faulty ε] (L : Law) (p : L.Place) (h : Heap) (r : Run ε Value) : Prop :=
  r.Lawful L p h L.Known

section Values

variable [Faulty ε]

theorem Run.Obeys.common {v : Value} (hv : v.Common) : (pure v : Run ε Value).Knows L p h :=
  .value fun _ _ => L.known_common hv

/-- A value that was known before. -/
theorem Run.Obeys.known {v : Value} (hv : L.Known h v) : (pure v : Run ε Value).Knows L p h :=
  .value fun _ hl => L.known_later hl hv

theorem Run.Obeys.lookCommon {g : World → Value} (hg : Blind g) (hv : ∀ w, (g w).Common) :
    (Run.read g : Run ε Value).Knows L p h :=
  .look hg fun w _ _ _ => L.known_common (hv w)

theorem Run.fromHost_knows (d : HostData) : (Run.fromHost d : Run ε Value).Knows L p h :=
  .putHeap (g := fun w => w.heap.fromHost d) rfl fun _ _ hw _ =>
    ⟨(Law.brings_fromHost hw d).admits, (Law.brings_fromHost hw d).known⟩

end Values

/-! ## Scripts -/

namespace Script

theorem ofExcept_obeys {Q : Heap → α → Prop} {x : Except RuntimeError α}
    (hx : ∀ h' a, L.Later h h' → x = .ok a → Q h' a) : (Script.ofExcept x).Lawful L p h Q := by
  cases x with
  | ok a => exact .value fun h' hl => hx h' a hl rfl
  | error e => exact .raise rfl

theorem ofExcept_tame (x : Except RuntimeError α) : (Script.ofExcept x).Tame L p h :=
  ofExcept_obeys fun _ _ _ _ => trivial

theorem ofExcept_common {x : Except RuntimeError Value} (hx : CommonOk x) :
    (Script.ofExcept x).Knows L p h :=
  ofExcept_obeys fun _ v _ hv => L.known_common (hx v hv)

/-- What is found to be wrong is refused before anything happens. -/
theorem checked {x : Except RuntimeError α} {Q : Heap → β → Prop} {k : α → Script β}
    {k' : L.Case → α → Script β} {w : World} {w' : L.Case → World} (hw : L.Holds p w w')
    (hk : ∀ a, x = .ok a → (k a).ObeysAt L p Q (fun i => k' i a) w w') :
    (Script.ofExcept x >>= k).ObeysAt L p Q (fun i => Script.ofExcept x >>= k' i) w w' := by
  cases x with
  | ok a => exact hk a rfl
  | error e => exact .error hw (L.keeps_refl p w.heap) (L.fits_fresh rfl)

/-- A name is bound where the law lets it be, to a value that may be about. -/
theorem declare_obeys {s : ScopeId} {name : String} {v : Value} (hp : L.Binds p s name)
    (hv : L.Known h v) (constant : Bool) : (declare s name v constant).Tame L p h := by
  intro w w' hw hl
  unfold ObeysAt declare
  simp only [L.heap_eq hw]
  cases hs : w.heap.declareError? s name with
  | some e => exact .error hw (L.keeps_refl p w.heap) (L.fits_fresh rfl)
  | none =>
    have ha := L.alters hw (.declared (b := ⟨v, constant⟩) hs hp (L.known_later hl hv))
    exact .ok ha.holds ha.keeps trivial

/-- The nearest binding of the name is one that there is. -/
theorem assign_obeys (s : ScopeId) (name : String) {v : Value} (hv : L.Known h v) :
    (assign s name v).Tame L p h := by
  intro w w' hw hl
  unfold ObeysAt assign
  simp only [L.heap_eq hw]
  cases hs : w.heap.assignTarget s name with
  | error e => exact .error hw (L.keeps_refl p w.heap) (L.fits_fresh rfl)
  | ok owner =>
    have ha := L.alters hw (.assigned hs (L.known_later hl hv))
    exact .ok ha.holds ha.keeps trivial

/-- What a name is bound to is known if the name may be read, or else if it is no native
function. -/
theorem get_obeys (s : ScopeId) (name : String) : (get s name).Lawful L p h fun h' v =>
    (L.readable name ∨ ∀ id, v ≠ .native id) → L.Known h' v := by
  intro w w' hw hl
  unfold ObeysAt get
  simp only [L.heap_eq hw]
  cases hv : w.heap.lookup s name with
  | none => exact .error hw (L.keeps_refl p w.heap) (L.fits_fresh rfl)
  | some v => exact .ok hw (L.keeps_refl p w.heap) (L.lookup_known hw hv)

theorem get_knows (s : ScopeId) {name : String} (hr : L.readable name) : (get s name).Knows L p h :=
  (get_obeys s name).mono fun _ _ _ hv => hv (.inl hr)

theorem newList_knows {items : Array Value} (hi : ∀ v ∈ items, L.Known h v) :
    (newList items).Knows L p h :=
  .alter (g := fun w => w.heap.addList items) rfl fun _ _ _ hl =>
    ⟨.list fun v hv => L.known_later hl (hi v hv), L.known_common trivial⟩

theorem newObject_knows {fields : Fields} (hf : ∀ e ∈ fields, L.Known h e.2) :
    (newObject fields).Knows L p h :=
  .alter (g := fun w => w.heap.addFields fields) rfl fun _ _ _ hl =>
    ⟨.fields fun e he => L.known_later hl (hf e he), L.known_common trivial⟩

/-- The items of a list. -/
theorem list_obeys (id : ListId) :
    (Script.heap (·.list id)).Lawful L p h fun h' items => ∀ v ∈ items, L.Known h' v :=
  .look rfl fun _ _ hw _ => L.list_known hw id

/-- The fields of an object. -/
theorem fields_obeys (id : ObjectId) :
    (Script.heap fun h => (h.object id).fields).Lawful L p h fun h' fields => ∀ e ∈ fields,
      L.Known h' e.2 :=
  .look rfl fun _ _ hw _ => L.fields_known hw id

end Script

/-! ## Operators -/

namespace Operators

open Script

theorem common_likeOperands (a b : Value) (x : Float) : (likeOperands a b x).Common := by
  unfold likeOperands
  split
  · trivial
  · trivial

theorem commonOk_arithmetic (op : BinaryOp) (g : Float → Float → Float) (a b : Value) :
    CommonOk (arithmetic op g a b) :=
  commonOk_bind fun _ => commonOk_ok (common_likeOperands _ _ _)

theorem commonOk_division (op : BinaryOp) (g : Float → Float → Float) (a b : Value) :
    CommonOk (division op g a b) := by
  refine commonOk_bind fun x => ?_
  simp only
  split
  · exact commonOk_error _
  · exact commonOk_ok (common_likeOperands _ _ _)

theorem commonOk_comparison (op : BinaryOp) (g : Float → Float → Bool) (a b : Value) :
    CommonOk (comparison op g a b) :=
  commonOk_bind fun _ => commonOk_ok trivial

theorem mem_of_mem_repeat {items : Array Value} {v : Value} : ∀ count,
    v ∈ Nat.repeat (· ++ items) count #[] → v ∈ items
  | 0, hv => nomatch hv
  | count + 1, hv => by
    rcases Array.mem_append.mp hv with hv | hv
    · exact mem_of_mem_repeat count hv
    · exact hv

theorem mem_of_mem_repeatItems {memory : Memory} {items result : Array Value} {count : Nat}
    (hr : repeatItems memory items count = .ok result) : ∀ v ∈ result, v ∈ items := by
  unfold repeatItems at hr
  split at hr
  · cases hr
  · split at hr
    · cases hr
      exact nofun
    · cases hr
      exact fun _ => mem_of_mem_repeat count

/-- What is repeated is a string or a list. -/
theorem common_repetition? {a b v : Value} {count : Nat} (hr : repetition? a b = some (v, count)) :
    v.Common := by
  have repeatable {u : Value} {times : Option Nat} (heq : times.map (u, ·) = some (v, count))
      (hu : u.Common) : v.Common := by
    obtain ⟨_, -, heq⟩ := Option.map_eq_some_iff.mp heq
    cases heq
    exact hu
  unfold repetition? at hr
  split at hr
  · exact repeatable hr trivial
  · exact repeatable hr trivial
  · exact repeatable hr trivial
  · exact repeatable hr trivial
  · cases hr

theorem repeated_knows {v : Value} (hv : v.Common) (count : Nat) :
    (repeated v count).Knows L p h := by
  unfold repeated
  refine .reading rfl fun memory => ?_
  split
  · exact .bind (ofExcept_tame _) fun _ => .common trivial
  · next id =>
    refine .andThen (list_obeys id) fun h₁ items _ hitems => ?_
    refine .andThen (Q := fun h' result => ∀ v ∈ result, L.Known h' v) ?_ fun _ _ _ hresult =>
      newList_knows hresult
    exact ofExcept_obeys fun _ _ hl hr v hv =>
      L.known_later hl (hitems v (mem_of_mem_repeatItems hr v hv))
  · exact .common hv

theorem add_knows (a b : Value) : (add a b).Knows L p h := by
  unfold add
  split
  · exact .reading rfl fun _ => .reading rfl fun _ => .common trivial
  · exact .reading rfl fun _ => .reading rfl fun _ => .common trivial
  · refine .andThen (list_obeys _) fun h₁ xs _ hx => .andThen (list_obeys _) fun h₂ ys hl hy => ?_
    refine newList_knows fun v hv => ?_
    rcases Array.mem_append.mp hv with hv | hv
    · exact L.known_later hl (hx v hv)
    · exact hy v hv
  · exact ofExcept_common (commonOk_arithmetic _ _ _ _)

theorem multiply_knows (a b : Value) : (multiply a b).Knows L p h := by
  unfold multiply
  split
  · next hr => exact repeated_knows (common_repetition? hr) _
  · exact ofExcept_common (commonOk_arithmetic _ _ _ _)

/-- **Operators answer with new data**, whatever their operands are. -/
theorem binary_knows (op : BinaryOp) (a b : Value) : (binary op a b).Knows L p h := by
  cases op with
  | add => exact add_knows a b
  | mul => exact multiply_knows a b
  | eq | ne => exact .lookCommon rfl fun _ => trivial
  | sub => exact ofExcept_common (commonOk_arithmetic _ _ _ _)
  | div | mod => exact ofExcept_common (commonOk_division _ _ _ _)
  | lt | le | gt | ge => exact ofExcept_common (commonOk_comparison _ _ _ _)

theorem unary_knows (op : UnaryOp) (v : Value) : (unary op v).Knows L p h := by
  unfold unary
  split
  · exact .reading rfl fun _ => .common trivial
  · exact .common trivial
  · exact .common trivial
  · exact .raise rfl

theorem listIndex_tame (key : Value) : (listIndex key).Tame L p h := by
  unfold listIndex
  split
  · exact .done _
  · exact .reading rfl fun _ => .raise rfl

theorem orMissing_knows (missing : Option RuntimeError) {v : Option Value}
    (hv : ∀ x ∈ v, L.Known h x) :
    (orMissing missing v).Knows L p h := by
  unfold orMissing
  split
  · exact .known (hv _ rfl)
  · split
    · exact .raise rfl
    · exact .common trivial

theorem readIndex_knows (strict : Bool) (v key : Value) : (readIndex strict v key).Knows L p h := by
  unfold readIndex
  split
  · refine .bind (listIndex_tame _) fun i => .andThen (list_obeys _) fun h₁ items _ hitems =>
      orMissing_knows _ fun x hx => ?_
    unfold itemAt? at hx
    split at hx
    · exact hitems x (Array.mem_of_getElem? hx)
    · cases hx
  · refine .bind (listIndex_tame _) fun i => orMissing_knows _ fun x hx => ?_
    obtain ⟨c, -, rfl⟩ := Option.map_eq_some_iff.mp hx
    exact L.known_common trivial
  · refine .reading rfl fun name => .andThen (fields_obeys _) fun h₁ fields _ hfields => ?_
    exact orMissing_knows _ fun x hx => Fields.of_get? (P := L.Known h₁) hfields hx
  · exact .raise rfl

end Operators

/-! ## The library -/

namespace Library

open Script

variable {args : List Value}

theorem change_tame (id : ListId) {g : Array Value → Array Value}
    (hg : ∀ h', L.Later h h' → ∀ items : Array Value, (∀ v ∈ items, L.Known h' v) →
      ∀ v ∈ g items, L.Known h' v) : (change id g).Tame L p h :=
  .alter (g := fun w => ((), w.heap.changeList id g)) rfl fun _ _ _ hl =>
    ⟨.items id (hg _ hl), trivial⟩

theorem sizeOf_knows (id : ListId) : (sizeOf id).Knows L p h := .lookCommon rfl fun _ => trivial

theorem listPush_knows (ha : ∀ v ∈ args, L.Known h v) : (listPush args).Knows L p h := by
  refine .bind (ofExcept_tame _) fun id => .bind (change_tame id ?_) fun _ => sizeOf_knows id
  intro h' hl items hitems v hv
  rw [← Array.mem_toList_iff, Array.toList_appendList, List.mem_append] at hv
  rcases hv with hv | hv
  · exact hitems v (Array.mem_toList_iff.mp hv)
  · exact L.known_later hl (ha v (List.mem_of_mem_tail hv))

theorem listUnshift_knows (ha : ∀ v ∈ args, L.Known h v) : (listUnshift args).Knows L p h := by
  refine .bind (ofExcept_tame _) fun id => .bind (change_tame id ?_) fun _ => sizeOf_knows id
  intro h' hl items hitems v hv
  rcases Array.mem_append.mp hv with hv | hv
  · exact L.known_later hl (ha v (List.mem_of_mem_tail (List.mem_toArray.mp hv)))
  · exact hitems v hv

theorem mem_of_mem_extract {items : Array Value} {i j : Nat} {v : Value}
    (hv : v ∈ items.extract i j) :
    v ∈ items := by
  obtain ⟨k, hk, rfl⟩ := Array.mem_extract_iff_getElem.mp hv
  exact Array.getElem_mem _

/-- An item that was taken from a list, or null. -/
theorem taken_knows {taken : Option Value} (ht : ∀ v ∈ taken, L.Known h v) :
    (pure (taken.getD .null) : Script Value).Knows L p h := by
  cases taken with
  | none => exact .common trivial
  | some v => exact .known (ht v rfl)

theorem listPop_knows : (listPop args).Knows L p h := by
  refine .bind (ofExcept_tame _) fun id => .andThen (Q := fun h' o => ∀ v ∈ o, L.Known h' v)
    (.look rfl fun w _ hw _ v hv => L.list_known hw id v (Array.mem_of_back? hv))
      fun h₁ last _ hlast => ?_
  refine .andThen (change_tame id fun _ _ items hitems v hv => hitems v ?_) fun h₂ _ hl _ =>
    taken_knows fun v hv => L.known_later hl (hlast v hv)
  obtain ⟨i, hi, rfl⟩ := Array.getElem_of_mem hv
  rw [Array.getElem_pop]
  exact Array.getElem_mem _

theorem listShift_knows : (listShift args).Knows L p h := by
  refine .bind (ofExcept_tame _) fun id => .andThen (Q := fun h' o => ∀ v ∈ o, L.Known h' v)
    (.look rfl fun w _ hw _ v hv => L.list_known hw id v (Array.mem_of_getElem? hv))
      fun h₁ first _ hfirst => ?_
  refine .andThen (change_tame id fun _ _ items hitems v hv => hitems v ?_) fun h₂ _ hl _ =>
    taken_knows fun v hv => L.known_later hl (hfirst v hv)
  exact mem_of_mem_extract hv

theorem listReverse_knows : (listReverse args).Knows L p h :=
  .bind (ofExcept_tame _) fun id =>
    .bind (change_tame id fun _ _ _ hitems v hv => hitems v (Array.mem_reverse.mp hv)) fun _ =>
      .common trivial

theorem listJoin_knows : (listJoin args).Knows L p h :=
  .bind (ofExcept_tame _) fun _ => .bind (ofExcept_tame _) fun _ => .lookCommon rfl fun _ => trivial

theorem listSlice_knows : (listSlice args).Knows L p h :=
  .bind (ofExcept_tame _) fun id => .andThen (list_obeys id) fun _ _ _ hitems =>
    .andThen (ofExcept_tame _) fun _ _ hl₁ _ => .andThen (ofExcept_tame _) fun _ _ hl₂ _ =>
      newList_knows fun v hv => L.known_later (L.later_trans hl₁ hl₂)
        (hitems v (mem_of_mem_extract hv))

theorem fieldsOf_obeys (function : String) (v : Value) :
    (fieldsOf function v).Lawful L p h fun h' fields => ∀ e ∈ fields, L.Known h' e.2 := by
  unfold fieldsOf
  split
  · exact fields_obeys _
  · exact .raise rfl

theorem objectKeys_knows : (objectKeys args).Knows L p h := by
  refine .bind (fieldsOf_obeys _ _).tame fun fields => newList_knows fun v hv => ?_
  obtain ⟨e, -, rfl⟩ := List.mem_map.mp (List.mem_toArray.mp hv)
  exact L.known_common trivial

theorem objectValues_knows : (objectValues args).Knows L p h := by
  refine .andThen (fieldsOf_obeys _ _) fun h₁ fields _ hfields => newList_knows fun v hv => ?_
  obtain ⟨e, he, rfl⟩ := List.mem_map.mp (List.mem_toArray.mp hv)
  exact hfields e he

theorem objectHasProperty_knows : (objectHasProperty args).Knows L p h :=
  .bind (ofExcept_tame _) fun _ => .bind (fieldsOf_obeys _ _).tame fun _ => .common trivial

theorem length_knows : (length args).Knows L p h := by
  unfold length
  split
  · exact .common trivial
  · exact .lookCommon rfl fun _ => trivial
  · exact .lookCommon rfl fun _ => trivial
  · exact .raise rfl

theorem jsonParse_knows : (jsonParse args).Knows L p h := by
  have built (n : Interchange.Node) : (jsonParse.build n).Knows L p h :=
    .putHeap (g := fun w => w.heap.ofNode n) rfl fun _ _ hw _ =>
      ⟨(Law.brings_ofNode hw n).admits, (Law.brings_ofNode hw n).known⟩
  refine .bind (ofExcept_tame _) fun _ => ?_
  split
  · exact .raise rfl
  · exact built _
  · exact built _
  · exact .raise rfl

theorem jsonStringify_knows : (jsonStringify args).Knows L p h :=
  .reading rfl fun _ => .bind (ofExcept_tame _) fun _ => .common trivial

theorem getBytes_knows : (getBytes args).Knows L p h := by
  refine .bind (ofExcept_tame _) fun text => .bind (ofExcept_tame _) fun name => ?_
  split
  · exact .raise rfl
  · next charset _ =>
    let o : HostObject := .bytes ⟨(charset.encode text).toArray⟩
    exact .alter (g := fun w => (Value.host (w.heap.addHostObject o).1, (w.heap.addHostObject o).2))
      rfl
      fun _ _ _ _ => ⟨.hostObject nofun, L.known_common trivial⟩

theorem bytesSize_knows : (bytesSize args).Knows L p h := by
  refine .reading rfl fun _ => ?_
  split
  · exact .common trivial
  · exact .raise rfl

theorem split_knows : (split args).Knows L p h := by
  refine .bind (ofExcept_tame _) fun _ => .bind (ofExcept_tame _) fun _ => newList_knows fun v hv =>
    ?_
  obtain ⟨cs, -, rfl⟩ := List.mem_map.mp (List.mem_toArray.mp hv)
  exact L.known_common trivial

theorem substring_knows : (substring args).Knows L p h := by
  refine .bind (ofExcept_tame _) fun _ => .bind (ofExcept_tame _) fun _ =>
    .bind (ofExcept_tame _) fun _ => .bind (ofExcept_tame _) fun _ => ?_
  split
  · exact .common trivial
  · exact .stuck

theorem write_tame (line : Output) : (Evaluation.write line).Tame L p h :=
  .note (g := fun w => ((), { w with output := w.output.push line })) rfl rfl

theorem writeLine_knows (stream : String → Output) : (writeLine stream args).Knows L p h :=
  .reading rfl fun _ => .bind (write_tame _) fun _ => .common trivial

theorem delay_knows : (delay args).Knows L p h :=
  .bind (ofExcept_tame _) fun _ =>
    .bind (.note (g := fun w => ((), { w with clock := w.clock + _ })) rfl rfl) fun _ =>
      .common trivial

theorem throwText_obeys {Q : Heap → Value → Prop} (default : String) (i : Nat) :
    (throwText default args i).Lawful L p h Q := by
  unfold throwText
  split
  · exact .reading rfl fun _ => .raise rfl
  · exact .raise rfl

theorem assertTrue_knows : (assertTrue args).Knows L p h := by
  refine .reading rfl fun _ => ?_
  split
  · exact .common trivial
  · exact throwText_obeys _ _

/-- The generator is left abstract, so that its arithmetic is not carried out. -/
theorem drawn_knows (draw : UInt64 → Value) (next : UInt64 → UInt64)
    (hd : ∀ seed, (draw seed).Common) :
    (Run.change fun w => (draw w.seed, { w with seed := next w.seed }) : Script Value).Knows
      L p h := by
  have drawn :
      (Run.change fun w => (w.seed, { w with seed := next w.seed }) : Script UInt64).Tame L p h :=
    .note rfl rfl
  exact .bind drawn fun seed => .common (hd seed)

theorem random_knows : random.Knows L p h :=
  drawn_knows (fun seed => .number (randomNumber (nextSeed seed))) nextSeed fun _ => trivial

theorem commonOk_parseInt : CommonOk (parseInt args) := by
  refine commonOk_bind fun text => commonOk_bind fun radix => ?_
  simp only
  split
  · exact commonOk_error _
  · split
    · exact commonOk_ok trivial
    · exact commonOk_ok trivial

/-- **Every function of the library** but the one that hands a task over. -/
theorem answer_knows {again : Calls} {b : Builtin} (hb : b ≠ .runOn)
    (ha : ∀ v ∈ args, L.Known h v) :
    (answer again b args).Knows L p h := by
  cases b with
  | print | error => exact writeLine_knows _
  | len => exact length_knows
  | typeOf | isNaN | isFinite | toNumber => exact .common trivial
  | currentTimeMillis => exact .lookCommon rfl fun _ => trivial
  | delay => exact delay_knows
  | throw => exact throwText_obeys _ _
  | assert => exact assertTrue_knows
  | random => exact random_knows
  | toText | toBoolean => exact .reading rfl fun _ => .common trivial
  | split => exact split_knows
  | substring => exact substring_knows
  | listPush => exact listPush_knows ha
  | listPop => exact listPop_knows
  | listShift => exact listShift_knows
  | listUnshift => exact listUnshift_knows ha
  | listJoin => exact listJoin_knows
  | listSlice => exact listSlice_knows
  | listReverse => exact listReverse_knows
  | objectKeys => exact objectKeys_knows
  | objectValues => exact objectValues_knows
  | objectHasProperty => exact objectHasProperty_knows
  | jsonParse => exact jsonParse_knows
  | jsonStringify => exact jsonStringify_knows
  | getBytes => exact getBytes_knows
  | bytesSize => exact bytesSize_knows
  | runOn => exact absurd rfl hb
  | sqrt | abs | floor | ceil | round | min | max | parseFloat | toUpperCase | toLowerCase | trim =>
    exact ofExcept_common (commonOk_bind fun _ => commonOk_ok trivial)
  | pow | startsWith | endsWith | stringContains =>
    exact ofExcept_common (commonOk_bind fun _ => commonOk_bind fun _ => commonOk_ok trivial)
  | replace =>
    exact ofExcept_common
      (commonOk_bind fun _ => commonOk_bind fun _ => commonOk_bind fun _ => commonOk_ok trivial)
  | parseInt => exact ofExcept_common commonOk_parseInt

end Library

end ScriptEngine
