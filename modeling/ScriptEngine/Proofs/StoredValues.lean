import Mathlib
import ScriptEngine.Library.Objects
import ScriptEngine.Proofs.Crossing
import ScriptEngine.Proofs.Rereading
/-!
# Values that are written and read back

A value of constants, small whole numbers, lists and plain objects is written as text, and the text
is read back as a copy of it: new lists and new objects that hold the same in the same order, and so
a value that is equal to it.

* `Heap.Storable` : values of that kind that nest so deep at most. None of them contains itself.
* `Heap.Copies` : a value and a copy of it, part by part.
* `Heap.exists_toNode` : what is storable is written, as data that is read back.
* `Heap.Restores` : data that is read back as a copy of a value.
* `Heap.Copies.equal` : copies are equal.
* **`Library.jsonParse_jsonStringify`** : writing and reading back yields a copy that is equal, in
  any state that has kept the lists and objects.

This is `JSON_stringify` and `JSON_parse`. Numbers are whole and below `10 ^ 15`, those that are
written as integers; a single comes back as a double of the same value.
-/

namespace ScriptEngine

namespace Heap

variable {h h' : Heap} {v w : Value}

/-- A value of null, truth values, strings, whole numbers below `10 ^ 15`, and lists and plain
objects of the heap that nest so deep at most. -/
inductive Storable (h : Heap) : (levels : Nat) → Value → Prop
  | null {levels : Nat} : Storable h levels .null
  | bool {levels : Nat} (b : Bool) : Storable h levels (.bool b)
  | string {levels : Nat} (s : String) : Storable h levels (.string s)
  | number {levels : Nat} {v : Value} {x : Float} (hx : v.asNumber? = some x)
      (hwhole : Number.isWhole x) (hsmall : (Number.toInt64 x).natAbs < 10 ^ 15) :
      Storable h levels v
  | list {levels : Nat} {id : ListId} (hid : id.index < h.lists.size)
      (hitems : ∀ v ∈ (h.list id).toList, Storable h levels v) : Storable h (levels + 1) (.list id)
  | object {levels : Nat} {id : ObjectId} (hid : id.index < h.objects.size)
      (hplain : (h.object id).cls = none) (hnames : (h.object id).fields.names.Nodup)
      (hfields : ∀ e ∈ (h.object id).fields, Storable h levels e.2) :
      Storable h (levels + 1) (.object id)

/-- The first value is a copy of the second one: the same constant, an equal number, a list of
copies of the items, or a plain object with copies of the fields under the same names in the same
order. -/
inductive Copies (h : Heap) : Value → Value → Prop
  | null : Copies h .null .null
  | bool (b : Bool) : Copies h (.bool b) (.bool b)
  | string (s : String) : Copies h (.string s) (.string s)
  | number {v w : Value} {x y : Float} (hv : v.asNumber? = some x) (hw : w.asNumber? = some y)
      (hxy : (x == y) = true) : Copies h v w
  | list {x y : ListId} (hsize : (h.list x).size = (h.list y).size)
      (hitems : ∀ p ∈ (h.list x).toList.zip (h.list y).toList, Copies h p.1 p.2) :
      Copies h (.list x) (.list y)
  | object {x y : ObjectId} (hx : (h.object x).cls = none) (hy : (h.object y).cls = none)
      (hnames : (h.object x).fields.names = (h.object y).fields.names)
      (hdistinct : (h.object y).fields.names.Nodup)
      (hfields : ∀ p ∈ (h.object x).fields.zip (h.object y).fields, Copies h p.1.2 p.2.2) :
      Copies h (.object x) (.object y)

/-! ## Copies are equal -/

/-- Where the names are the same in the same order, each field finds the one in its own place. -/
theorem map_get?_eq_zip {fields fields' : Fields} (hnames : fields.names = fields'.names)
    (hdistinct : fields'.names.Nodup) :
    (fields.map fun e => (fields'.get? e.1).map fun w => (e.2, w)) =
      ((fields.zip fields').map fun p => (p.1.2, p.2.2)).map some := by
  have hlength : fields.length = fields'.length := by
    simpa [Fields.names] using congrArg List.length hnames
  refine List.ext_getElem (by simp [hlength]) fun i hi _ => ?_
  rw [List.length_map] at hi
  have hi' : i < fields'.length := hlength ▸ hi
  have hname : fields[i].1 = fields'[i].1 := by
    have hnth := congrArg (·[i]?) hnames
    simpa [Fields.names, hi, hi'] using hnth
  have hfound : fields'.get? fields'[i].1 = some fields'[i].2 :=
    Fields.get?_of_mem hdistinct (List.getElem_mem hi')
  simp [hname, hfound]

/-- What a comparison does first with copies: it takes them for equal or asks for parts that are
copies. -/
theorem Copies.look (hc : h.Copies v w) (assumed : List (Value × Value)) :
    h.look assumed v w = .error true ∨
      ∃ ps : List (Value × Value), h.look assumed v w = .ok (ps.map some) ∧
        ∀ p ∈ ps, h.Copies p.1 p.2 := by
  cases hc with
  | null => exact .inl rfl
  | bool b => exact .inl (by simp [Heap.look, equalAtoms, Value.asNumber?])
  | string s => exact .inl (by simp [Heap.look, equalAtoms, Value.asNumber?])
  | number hv hw hxy =>
    have hatoms : h.look assumed v w = .error (h.equalAtoms v w) := by
      cases v <;> cases hv <;> cases w <;> cases hw <;> rfl
    rw [hatoms, equalAtoms_of_numbers hv hw, hxy]
    exact .inl rfl
  | list hsize hitems =>
    exact (look_lists_cases assumed hsize).imp_right fun hok => ⟨_, hok, hitems⟩
  | @object x y hx hy hnames hdistinct hfields =>
    have hlength : (h.object x).fields.length = (h.object y).fields.length := by
      simpa [Fields.names] using congrArg List.length hnames
    refine (look_objects_cases assumed hx hy hlength).imp_right fun hok => ?_
    rw [map_get?_eq_zip hnames hdistinct] at hok
    refine ⟨_, hok, fun p hp => ?_⟩
    obtain ⟨q, hq, rfl⟩ := List.mem_map.mp hp
    exact hfields q hq

/-- **A copy is equal** to what it is a copy of. -/
theorem Copies.equal (hc : h.Copies v w) : h.equal v w = true :=
  equal_of_related (fun assumed _ _ hc => hc.look assumed) hc

/-! ## Writing -/

theorem Storable.mono {levels more : Nat} (hv : h.Storable levels v) (hle : levels ≤ more) :
    h.Storable more v := by
  induction hv generalizing more with
  | null => exact .null
  | bool b => exact .bool b
  | string s => exact .string s
  | number hx hwhole hsmall => exact .number hx hwhole hsmall
  | list hid hitems ih =>
    obtain ⟨more, rfl⟩ := Nat.exists_eq_add_of_le' (Nat.lt_of_lt_of_le (Nat.succ_pos _) hle)
    exact .list hid fun v hv => ih v hv (Nat.le_of_succ_le_succ hle)
  | object hid hplain hnames hfields ih =>
    obtain ⟨more, rfl⟩ := Nat.exists_eq_add_of_le' (Nat.lt_of_lt_of_le (Nat.succ_pos _) hle)
    exact .object hid hplain hnames fun e he => ih e he (Nat.le_of_succ_le_succ hle)

/-- The lists and objects of the heap as values. -/
def allContainers (h : Heap) : List Value :=
  ((List.range h.lists.size).map fun i => .list ⟨i⟩) ++ (List.range h.objects.size).map fun i =>
    .object ⟨i⟩

/-- A path through different lists and objects is no longer than there are any. -/
theorem length_path_le {path : List Value} (hnodup : path.Nodup) (hpath : path ⊆ h.allContainers) :
    path.length ≤ h.containers := by
  have hle := (hnodup.subperm hpath).length_le
  simpa [allContainers, containers] using hle

theorem list_mem_allContainers {id : ListId} (hid : id.index < h.lists.size) :
    .list id ∈ h.allContainers :=
  List.mem_append_left _ (List.mem_map.mpr ⟨id.index, List.mem_range.mpr hid, rfl⟩)

theorem object_mem_allContainers {id : ObjectId} (hid : id.index < h.objects.size) :
    .object id ∈ h.allContainers :=
  List.mem_append_right _ (List.mem_map.mpr ⟨id.index, List.mem_range.mpr hid, rfl⟩)

end Heap

/-! ## Reading -/

/-- A list of the first heap is kept. -/
theorem Heap.Grows.list_of_lt {h h' : Heap} (hg : h.Grows h') {id : ListId}
    (hid : id.index < h.lists.size) :
    h'.list id = h.list id := by
  obtain ⟨rest, hrest⟩ := hg.lists
  have hkept : h'.lists[id.index]? = h.lists[id.index]? := by
    rw [← Array.getElem?_toList, ← Array.getElem?_toList, ← hrest, List.getElem?_append_left
      (by simpa)]
  simp only [Heap.list, Array.getD_eq_getD_getElem?, hkept]

/-- An object of the first heap is kept. -/
theorem Heap.Grows.object_of_lt {h h' : Heap} (hg : h.Grows h') {id : ObjectId}
    (hid : id.index < h.objects.size) :
    h'.object id = h.object id := by
  obtain ⟨rest, hrest⟩ := hg.objects
  have hkept : h'.objects[id.index]? = h.objects[id.index]? := by
    rw [← Array.getElem?_toList, ← Array.getElem?_toList, ← hrest, List.getElem?_append_left
      (by simpa)]
  simp only [Heap.object, Array.getD_eq_getD_getElem?, hkept]

mutual

theorem Heap.grows_ofNode (h : Heap) : ∀ n : Interchange.Node, h.Grows (h.ofNode n).2
  | .null | .bool _ | .number _ | .string _ => .refl h
  | .array items => (Heap.grows_ofNodes h items).trans (.addList _ _)
  | .object members => (Heap.grows_ofMembers h members).trans (.addFields _ _)

theorem Heap.grows_ofNodes (h : Heap) : ∀ ns : List Interchange.Node, h.Grows (h.ofNodes ns).2
  | [] => .refl h
  | n :: ns => (Heap.grows_ofNode h n).trans (Heap.grows_ofNodes _ ns)

theorem Heap.grows_ofMembers (h : Heap) :
    ∀ ms : List (String × Interchange.Node), h.Grows (h.ofMembers ms).2
  | [] => .refl h
  | (_, n) :: ms => (Heap.grows_ofNode h n).trans (Heap.grows_ofMembers _ ms)

end

namespace Heap

open Interchange

variable {h h₁ h' : Heap} {v : Value}

/-- In every heap that keeps this one, the data becomes a copy of the value, and remains one. -/
def Restores (h : Heap) (v : Value) (n : Node) : Prop :=
  ∀ h₁ h' : Heap, h.Grows h₁ → (h₁.ofNode n).2.Grows h' → h'.Copies (h₁.ofNode n).1 v

/-- Items become copies one after another. -/
theorem restores_items {vs : List Value} {ns : List Node} (hs : List.Forall₂ h.Restores vs ns)
    (hg : h.Grows h₁) (hg' : (h₁.ofNodes ns).2.Grows h') :
    List.Forall₂ h'.Copies (h₁.ofNodes ns).1 vs := by
  induction hs generalizing h₁ with
  | nil => exact .nil
  | @cons v n vs ns hn hns ih =>
    exact .cons (hn h₁ h' hg ((grows_ofNodes _ ns).trans hg')) (ih (hg.trans (grows_ofNode h₁ n))
      hg')

/-- Members become fields of the same names with copies in them. -/
theorem restores_members {fields : Fields} {ms : List (String × Node)}
    (hs : List.Forall₂ (fun e m => m.1 = e.1 ∧ h.Restores e.2 m.2) fields ms) (hg : h.Grows h₁)
    (hg' : (h₁.ofMembers ms).2.Grows h') :
    List.Forall₂ (fun e' e => e'.1 = e.1 ∧ h'.Copies e'.2 e.2) (h₁.ofMembers ms).1 fields := by
  induction hs generalizing h₁ with
  | nil => exact .nil
  | @cons e m fields ms hm hms ih =>
    exact .cons ⟨hm.1, hm.2 h₁ h' hg ((grows_ofMembers _ ms).trans hg')⟩
      (ih (hg.trans (grows_ofNode h₁ m.2)) hg')

theorem restores_list {id : ListId} (hid : id.index < h.lists.size) {ns : List Node}
    (hs : List.Forall₂ h.Restores (h.list id).toList ns) : h.Restores (.list id) (.array ns) := by
  intro h₁ h' hg hg'
  have hgrown : h₁.Grows h' := (grows_ofNode h₁ (.array ns)).trans hg'
  have hnew : h'.list _ = (h₁.ofNodes ns).1.toArray := hg'.list_eq
  have hold : h'.list id = h.list id := (hg.trans hgrown).list_of_lt hid
  have hcopies := restores_items hs hg ((Grows.addList _ _).trans hg')
  refine .list ?_ ?_
  · rw [hnew, hold]
    simpa using hcopies.length_eq
  · rw [hnew, hold]
    intro p hp
    exact (List.forall₂_iff_zip.mp hcopies).2 hp

theorem restores_object {id : ObjectId} (hid : id.index < h.objects.size)
    (hplain : (h.object id).cls = none) (hnames : (h.object id).fields.names.Nodup)
    {ms : List (String × Node)}
    (hs : List.Forall₂ (fun e m => m.1 = e.1 ∧ h.Restores e.2 m.2) (h.object id).fields ms) :
    h.Restores (.object id) (.object ms) := by
  intro h₁ h' hg hg'
  have hgrown : h₁.Grows h' := (grows_ofNode h₁ (.object ms)).trans hg'
  have hold : h'.object id = h.object id := (hg.trans hgrown).object_of_lt hid
  have hcopies := restores_members hs hg ((Grows.addFields _ _).trans hg')
  have hsame : Fields.names (h₁.ofMembers ms).1 = (h.object id).fields.names := by
    unfold Fields.names
    rw [← List.forall₂_eq_eq_eq, List.forall₂_map_left_iff, List.forall₂_map_right_iff]
    exact hcopies.imp fun _ _ hcopy => hcopy.1
  have hnew : h'.object _ = ⟨none, Fields.ofPairs (h₁.ofMembers ms).1, []⟩ := hg'.object_eq
  rw [Fields.ofPairs_of_nodup (by rw [← Fields.names]; exact hsame ▸ hnames)] at hnew
  refine .object ?_ ?_ ?_ ?_ ?_
  · rw [hnew]
  · rw [hold, hplain]
  · rw [hnew, hold, hsame]
  · rw [hold]
    exact hnames
  · rw [hnew, hold]
    intro p hp
    exact ((List.forall₂_iff_zip.mp hcopies).2 hp).2

/-! ## Writing -/

/-- Where every item has a result, they have results one after another. -/
theorem exists_mapM {ε α β : Type} {f : α → Except ε β} {R : α → β → Prop} {as : List α}
    (hf : ∀ a ∈ as, ∃ b, f a = .ok b ∧ R a b) :
    ∃ bs, as.mapM f = .ok bs ∧ List.Forall₂ R as bs := by
  induction as with
  | nil => exact ⟨[], rfl, .nil⟩
  | cons a as ih =>
    obtain ⟨⟨b, hb, hab⟩, has⟩ := List.forall_mem_cons.mp hf
    obtain ⟨bs, hbs, hrest⟩ := ih has
    refine ⟨b :: bs, ?_, .cons hab hrest⟩
    rw [List.mapM_cons, hb, hbs]
    rfl

/-- A list is written that is not inside itself. -/
theorem toNodeWithin_list {k : Nat} {path : List Value} {id : ListId} (hnew : .list id ∉ path)
    {ns : List Node}
    (hns : (h.list id).toList.mapM (h.toNodeWithin k (.list id :: path)) = .ok ns) :
    h.toNodeWithin (k + 1) path (.list id) = .ok (.array ns) := by
  have hnotin : path.contains (.list id) = false := by simpa using hnew
  simp only [toNodeWithin, hnotin, hns]
  rfl

/-- An object is written that is not inside itself. -/
theorem toNodeWithin_object {k : Nat} {path : List Value} {id : ObjectId} (hnew : .object id ∉ path)
    {ms : List (String × Node)}
    (hms : (h.object id).fields.mapM (fun e => do
      return (e.1, ← h.toNodeWithin k (.object id :: path) e.2)) = .ok ms) :
    h.toNodeWithin (k + 1) path (.object id) = .ok (.object ms) := by
  have hnotin : path.contains (.object id) = false := by simpa using hnew
  simp only [toNodeWithin, hnotin]
  change (do let members ← List.mapM _ _; return Node.object members) = _
  rw [hms]
  rfl

/-- **What is storable is written**, inside lists and objects that nest deeper than it, and what is
read back restores it. -/
theorem exists_toNodeWithin {levels : Nat} (hv : h.Storable levels v) {path : List Value}
    (hnodup : path.Nodup) (hpath : path ⊆ h.allContainers)
    (hdeeper : ∀ u ∈ path, ¬ h.Storable levels u) {k : Nat} (hk : h.containers < k + path.length) :
    ∃ n, h.toNodeWithin k path v = .ok n ∧ n.Plain levels ∧ h.Restores v n.reread := by
  induction levels using Nat.strong_induction_on generalizing v path k with
  | _ levels ih =>
    by_cases hless : ∃ less < levels, h.Storable less v
    · obtain ⟨less, hlt, hless⟩ := hless
      have hdeeper' : ∀ u ∈ path, ¬ h.Storable less u :=
        fun u hu hs => hdeeper u hu (hs.mono hlt.le)
      obtain ⟨n, hn, hplain, hrestores⟩ := ih less hlt hless hnodup hpath hdeeper' hk
      exact ⟨n, hn, hplain.mono hlt.le, hrestores⟩
    have hnew : v ∉ path := fun hmem => hdeeper v hmem hv
    have hpos : 0 < k := by
      have := length_path_le hnodup hpath
      omega
    obtain ⟨k, rfl⟩ := Nat.exists_eq_add_of_le' hpos
    -- no fewer levels are enough for the value itself, so its parts are not inside them
    have hpart (hv : v ∈ h.allContainers) {less : Nat} (hlt : less < levels) {u : Value}
        (hu : h.Storable less u) :
        ∃ n, h.toNodeWithin k (v :: path) u = .ok n ∧ n.Plain less ∧ h.Restores u n.reread := by
      refine ih less hlt hu (List.nodup_cons.mpr ⟨hnew, hnodup⟩) (List.cons_subset.mpr ⟨hv, hpath⟩)
        ?_ ?_
      · refine List.forall_mem_cons.mpr ⟨fun hs => hless ⟨less, hlt, hs⟩, fun w hw hs => ?_⟩
        exact hdeeper w hw (hs.mono hlt.le)
      · rw [List.length_cons]
        omega
    cases hv with
    | null => exact ⟨.null, by simp [toNodeWithin, hnew], .null, fun _ _ _ _ => .null⟩
    | bool b => exact ⟨.bool b, by simp [toNodeWithin, hnew], .bool b, fun _ _ _ _ => .bool b⟩
    | string s =>
        exact ⟨.string s, by simp [toNodeWithin, hnew], .string s, fun _ _ _ _ => .string s⟩
    | @number _ _ x hx hwhole hsmall =>
      have hlt : (Number.toInt64 x).natAbs < 2 ^ 63 - 1 := Nat.lt_trans hsmall (by decide)
      refine ⟨.number x, ?_, .number hwhole hsmall, fun _ _ _ _ => ?_⟩
      · cases v <;> cases hx <;> simp [toNodeWithin, hnew]
      · exact .number rfl hx (Number.ofInt_toInt64 hwhole hlt)
    | @list levels id hid hitems =>
      obtain ⟨ns, hns, hall⟩ := exists_mapM fun u hu =>
        hpart (list_mem_allContainers hid) (Nat.lt_succ_self _) (hitems u hu)
      obtain ⟨hplain, hrestores⟩ := (List.forall₂_and_left ns _).mp hall.flip
      refine ⟨.array ns, toNodeWithin_list hnew hns, .array hplain, ?_⟩
      rw [Node.reread, rereadItems_eq_map]
      exact restores_list hid (List.forall₂_map_right_iff.mpr hrestores.flip)
    | @object levels id hid hplain hnames hfields =>
      have hmember : ∀ e ∈ (h.object id).fields, ∃ m : String × Node,
          (do return (e.1, ← h.toNodeWithin k (.object id :: path) e.2)) = Except.ok m ∧
            m.2.Plain levels ∧ m.1 = e.1 ∧ h.Restores e.2 m.2.reread := by
        intro e he
        obtain ⟨n, hn, hplain, hrestores⟩ :=
          hpart (object_mem_allContainers hid) (Nat.lt_succ_self _) (hfields e he)
        refine ⟨(e.1, n), ?_, hplain, rfl, hrestores⟩
        rw [hn]
        rfl
      obtain ⟨ms, hms, hall⟩ := exists_mapM hmember
      obtain ⟨hmembers, hrestores⟩ := (List.forall₂_and_left ms _).mp hall.flip
      have hsame : ms.map (·.1) = (h.object id).fields.names := by
        unfold Fields.names
        rw [← List.forall₂_eq_eq_eq, List.forall₂_map_left_iff, List.forall₂_map_right_iff]
        exact hrestores.imp fun _ _ hm => hm.1
      refine ⟨.object ms, toNodeWithin_object hnew hms, .object (hsame ▸ hnames) hmembers, ?_⟩
      rw [Node.reread, rereadMembers_eq_map]
      exact restores_object hid hplain hnames (List.forall₂_map_right_iff.mpr hrestores.flip)

/-- What is storable is written as data, and what is read back restores it. -/
theorem exists_toNode {levels : Nat} (hv : h.Storable levels v) :
    ∃ n, h.toNode v = .ok n ∧ n.Plain levels ∧ h.Restores v n.reread :=
  exists_toNodeWithin hv List.nodup_nil (List.nil_subset _) (List.forall_mem_nil _)
    (Nat.lt_succ_self _)

end Heap

namespace Library

open Interchange

/-- Data with a list or an object at its root is read into new lists and objects. -/
theorem jsonParse_write {n : Node} (hn : n.Plain 127)
    (hroot : (∃ ns, n.reread = .array ns) ∨ ∃ ms, n.reread = .object ms) (w : World) :
    jsonParse [.string n.write] w = .ok (w.heap.ofNode n.reread).1
      { w with heap := (w.heap.ofNode n.reread).2 } := by
  have htext : (Script.ofExcept (stringAt "JSON_parse" [.string n.write] 0)) w = .ok n.write w :=
    rfl
  rw [jsonParse, Run.bind_of_ok htext, read_write hn]
  rcases hroot with ⟨ns, hns⟩ | ⟨ms, hms⟩
  · rw [hns]
    rfl
  · rw [hms]
    rfl

/-- **A list or plain object that is written is read back as a copy of itself**: if it nests no
deeper than 127 levels it has a text, and in every state that keeps its lists and objects the text
becomes a new value that is equal to it, part by part and in the same order. -/
theorem jsonParse_jsonStringify {w : World} {v : Value} (hv : w.heap.Storable 127 v)
    (hroot : (∃ id, v = .list id) ∨ ∃ id, v = .object id) :
    ∃ text, jsonStringify [v] w = .ok (.string text) w ∧
      ∀ later : World, w.heap.Grows later.heap → ∃ v' heap,
        jsonParse [.string text] later = .ok v' { later with heap } ∧ later.heap.Grows heap ∧
          heap.Copies v' v ∧ heap.equal v' v = true := by
  obtain ⟨n, hn, hplain, hrestores⟩ := Heap.exists_toNode hv
  have hcontainer : (∃ ns, n.reread = .array ns) ∨ ∃ ms, n.reread = .object ms := by
    have hcopies := hrestores w.heap _ (.refl _) (.refl _)
    rcases hroot with ⟨id, rfl⟩ | ⟨id, rfl⟩
    all_goals
      cases hread : n.reread with
      | array ns => exact .inl ⟨ns, rfl⟩
      | object ms => exact .inr ⟨ms, rfl⟩
      | _ =>
        rw [hread] at hcopies
        cases hcopies with
        | number _ hw => cases hw
  refine ⟨n.write, ?_, fun later hlater => ?_⟩
  · have hdata : (Script.heap fun h => h.toNode (argumentAt [v] 0)) w = .ok (.ok n) w :=
      Run.read_of_eq hn
    rw [jsonStringify, Run.bind_of_ok hdata]
    rfl
  · have hcopies := hrestores later.heap _ hlater (.refl _)
    exact ⟨_, _, jsonParse_write hplain hcontainer later, Heap.grows_ofNode later.heap n.reread,
      hcopies,
      hcopies.equal⟩

/-- A heap with an object that holds a number, a string with a quote, and a list that holds one list
twice. -/
def basket : World :=
  let w := World.initial .default 0 0
  let heap := { w.heap with
    lists := #[#[.bool true, .null], #[.list ⟨0⟩, .list ⟨0⟩]]
    objects :=
      #[⟨none, [("size", .number (-3)), ("name", .string "a \"b\"\n"), ("items", .list ⟨1⟩)], []⟩] }
  { w with heap }

theorem basket_storable : basket.heap.Storable 127 (.object ⟨0⟩) := by
  have hinner : basket.heap.Storable 125 (.list ⟨0⟩) := by
    refine .list (by decide) fun v hv => ?_
    have hv : v = .bool true ∨ v = .null := by simpa [Heap.list, basket] using hv
    rcases hv with rfl | rfl
    · exact .bool true
    · exact .null
  have houter : basket.heap.Storable 126 (.list ⟨1⟩) := by
    refine .list (by decide) fun v hv => ?_
    have hv : v = .list ⟨0⟩ := by simpa [Heap.list, basket] using hv
    exact hv ▸ hinner
  refine .object (by decide) rfl (by decide) fun e he => ?_
  have he : e = ("size", .number (-3)) ∨ e = ("name", .string "a \"b\"\n") ∨
      e = ("items", .list ⟨1⟩) := by
    simpa [Heap.object, basket] using he
  rcases he with rfl | rfl | rfl
  · exact .number rfl (by decide +kernel) (by decide +kernel)
  · exact .string _
  · exact houter

theorem jsonParse_jsonStringify_basket : basket.heap.Storable 127 (.object ⟨0⟩) ∧
    ∃ text, jsonStringify [.object ⟨0⟩] basket = .ok (.string text) basket ∧ ∃ v' heap,
      jsonParse [.string text] basket = .ok v' { basket with heap } ∧ heap.Copies v' (.object ⟨0⟩) ∧
        heap.equal v' (.object ⟨0⟩) = true := by
  obtain ⟨text, htext, hparse⟩ := jsonParse_jsonStringify basket_storable (.inr ⟨_, rfl⟩)
  obtain ⟨v', heap, hv', -, hcopies, hequal⟩ := hparse basket (.refl _)
  exact ⟨basket_storable, text, htext, v', heap, hv', hcopies, hequal⟩

end Library

end ScriptEngine
