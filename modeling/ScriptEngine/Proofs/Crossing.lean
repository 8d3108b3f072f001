import ScriptEngine.Proofs.Integers
import ScriptEngine.Evaluation.Machine
import ScriptEngine.Proofs.Instances
/-!
# Data that crosses and comes back

Data becomes a value where a script reads it, and the value becomes data where the host reads it.
What comes back is the same data, but for the kinds of its numbers: a value does not know of which
kind its number was.

* `HostData.Same` : data that is the same but for the kinds of its numbers.
* `HostData.Ordered` : data whose maps are sorted by their keys.
* `Heap.Grows` : a heap that keeps its lists and objects.
* `Heap.same_naturalWithin` : the shape of a value that data became is the same data.
-/

namespace ScriptEngine

/-! ## The same data -/

mutual

/-- Data that is the same but for the kinds of its numbers. Numbers are compared by their value, and
what is not a number is the same as itself. -/
inductive HostData.Same : HostData → HostData → Prop
  | refl (d : HostData) : Same d d
  | number {a b : HostData} {x y : Float} (ha : a.asNumber? = some x) (hb : b.asNumber? = some y)
      (hxy : x = y ∨ (x == y) = true) : Same a b
  | list {as bs : List HostData} (hs : HostData.SameItems as bs) : Same (.list as) (.list bs)
  | map {as bs : List (String × HostData)} (hs : HostData.SameEntries as bs) :
      Same (.map as) (.map bs)

/-- Items that are the same, one after another. -/
inductive HostData.SameItems : List HostData → List HostData → Prop
  | nil : SameItems [] []
  | cons {a b : HostData} {as bs : List HostData} (h : HostData.Same a b) (hs : SameItems as bs) :
      SameItems (a :: as) (b :: bs)

/-- Entries that are the same, one after another. -/
inductive HostData.SameEntries : List (String × HostData) → List (String × HostData) → Prop
  | nil : SameEntries [] []
  | cons {key : String} {a b : HostData} {as bs : List (String × HostData)} (h : HostData.Same a b)
      (hs : SameEntries as bs) : SameEntries ((key, a) :: as) ((key, b) :: bs)

end

namespace HostData

variable {same : HostId → HostId → Bool}

theorem equal_of_numbers {a b : HostData} {x y : Float} (ha : a.asNumber? = some x)
    (hb : b.asNumber? = some y) : a.equal same b = (x == y) := by
  cases a <;> cases ha <;> cases b <;> cases hb <;> rfl

mutual

/-- What is the same is equal, if it is equal to itself at all. -/
theorem Same.equal {a b : HostData} (h : a.Same b) (ha : a.equal same a = true) :
    a.equal same b = true := by
  cases h with
  | refl => exact ha
  | number hx hy hxy =>
    rw [equal_of_numbers hx hy]
    obtain rfl | hxy := hxy
    · rwa [equal_of_numbers hx hx] at ha
    · exact hxy
  | list hs => exact SameItems.equal hs ha
  | map hs => exact SameEntries.equal hs ha

theorem SameItems.equal {as bs : List HostData} (hs : SameItems as bs)
    (ha : equalItems same as as = true) : equalItems same as bs = true := by
  cases hs with
  | nil => rfl
  | cons h hs =>
    obtain ⟨ha, has⟩ := Bool.and_eq_true_iff.mp ha
    exact Bool.and_eq_true_iff.mpr ⟨Same.equal h ha, SameItems.equal hs has⟩

theorem SameEntries.equal {as bs : List (String × HostData)} (hs : SameEntries as bs)
    (ha : equalEntries same as as = true) : equalEntries same as bs = true := by
  cases hs with
  | nil => rfl
  | cons h hs =>
    obtain ⟨hka, has⟩ := Bool.and_eq_true_iff.mp ha
    obtain ⟨hk, ha⟩ := Bool.and_eq_true_iff.mp hka
    exact Bool.and_eq_true_iff.mpr
      ⟨Bool.and_eq_true_iff.mpr ⟨hk, Same.equal h ha⟩, SameEntries.equal hs has⟩

end

/-! ## Maps in order -/

mutual

/-- All maps in the data are sorted by their keys. -/
def Ordered : HostData → Prop
  | .list items => OrderedItems items
  | .map entries => (entries.map (·.1)).Pairwise (· < ·) ∧ OrderedEntries entries
  | _ => True

/-- All maps in the items are sorted by their keys. -/
def OrderedItems : List HostData → Prop
  | [] => True
  | d :: ds => d.Ordered ∧ OrderedItems ds

/-- All maps in the entries are sorted by their keys. -/
def OrderedEntries : List (String × HostData) → Prop
  | [] => True
  | (_, d) :: ds => d.Ordered ∧ OrderedEntries ds

end

theorem SameEntries.keys_eq {as bs : List (String × HostData)} (hs : SameEntries as bs) :
    as.map (·.1) = bs.map (·.1) := by
  induction as generalizing bs with
  | nil => cases hs; rfl
  | cons a as ih =>
    cases hs with
    | cons h hs => exact congrArg (_ :: ·) (ih hs)

/-- The shape of a number is the number itself or an integer that equals it. -/
theorem naturalNumber_cases (x : Float) : naturalNumber x = .double x ∨
    ∃ i, (naturalNumber x = .int i ∨ naturalNumber x = .long i) ∧ (Float.ofInt i == x) = true := by
  have hinteger (hwhole : Number.isWhole x) (hlt : (Number.toInt64 x).natAbs < longLimit) :
      (Float.ofInt (Number.toInt64 x) == x) = true := by
    have hlimit : longLimit < 2 ^ 63 - 1 := by decide
    exact Number.ofInt_toInt64 hwhole (Nat.lt_trans hlt hlimit)
  unfold naturalNumber
  simp only [Bool.and_eq_true, decide_eq_true_eq]
  split_ifs with hwhole hint hlong
  · refine .inr ⟨_, .inl rfl, hinteger hwhole ?_⟩
    unfold Number.minInt32 Number.maxInt32 at hint
    unfold longLimit
    omega
  · exact .inr ⟨_, .inr rfl, hinteger hwhole hlong⟩
  · exact .inl rfl
  · exact .inl rfl

/-- The shape of a number is the number. -/
theorem same_naturalNumber {d : HostData} {x : Float} (hd : d.asNumber? = some x) :
    d.Same (naturalNumber x) := by
  rcases naturalNumber_cases x with hdouble | ⟨i, hint | hlong, hix⟩
  · rw [hdouble]
    exact .number hd rfl (.inl rfl)
  · rw [hint]
    exact .number hd rfl (.inr (Number.beq_comm ▸ hix))
  · rw [hlong]
    exact .number hd rfl (.inr (Number.beq_comm ▸ hix))

/-- An entry that comes after all others goes last. -/
theorem putSorted_of_last {key : String} {entries : List (String × HostData)} (d : HostData)
    (hlast : ∀ entry ∈ entries, entry.1 < key) :
    putSorted key d entries = entries ++ [(key, d)] := by
  induction entries with
  | nil => rfl
  | cons entry rest ih =>
    obtain ⟨k, e⟩ := entry
    obtain ⟨hk, hrest⟩ := List.forall_mem_cons.mp hlast
    have hne : k ≠ key := fun h => String.lt_irrefl key (h ▸ hk)
    rw [putSorted, if_neg (String.lt_asymm hk), if_neg (by simpa using hne), ih hrest]
    rfl

/-- Entries that are sorted are put into a map as they are. -/
theorem foldl_putSorted {entries : List (String × HostData)} :
    ∀ {before : List (String × HostData)}, ((before ++ entries).map (·.1)).Pairwise (· < ·) →
      entries.foldl (fun entries (name, d) => putSorted name d entries) before =
        before ++ entries := by
  induction entries with
  | nil => exact fun _ => (List.append_nil _).symm
  | cons entry rest ih =>
    intro before hsorted
    obtain ⟨key, d⟩ := entry
    have hlast : ∀ entry ∈ before, entry.1 < key := by
      intro entry hentry
      rw [List.map_append, List.pairwise_append] at hsorted
      exact hsorted.2.2 _ (List.mem_map_of_mem hentry) _ List.mem_cons_self
    have hstep :
        ((key, d) :: rest).foldl (fun entries (name, d) => putSorted name d entries) before =
        rest.foldl (fun entries (name, d) => putSorted name d entries) (putSorted key d before) :=
      rfl
    rw [hstep, putSorted_of_last d hlast, ih (by simpa using hsorted), List.append_assoc]
    rfl

end HostData

/-! ## Heaps that grow -/

/-- The second heap has the lists and objects of the first one, as they were. -/
structure Heap.Grows (h h' : Heap) : Prop where
  lists : h.lists.toList <+: h'.lists.toList
  objects : h.objects.toList <+: h'.objects.toList

namespace Heap.Grows

variable {h h' h'' : Heap}

theorem refl (h : Heap) : h.Grows h := ⟨List.prefix_rfl, List.prefix_rfl⟩

theorem trans (a : h.Grows h') (b : h'.Grows h'') : h.Grows h'' :=
  ⟨a.lists.trans b.lists, a.objects.trans b.objects⟩

theorem addList (h : Heap) (items : Array Value) : h.Grows (h.addList items).2 where
  lists := by
    rw [Heap.addList, Array.toList_push]
    exact List.prefix_append _ _
  objects := List.prefix_rfl

theorem addFields (h : Heap) (fields : Fields) : h.Grows (h.addFields fields).2 where
  lists := List.prefix_rfl
  objects := by
    rw [Heap.addFields, Heap.addObject, Array.toList_push]
    exact List.prefix_append _ _

/-- A new list stays what it is. -/
theorem list_eq {items : Array Value} (hg : (h.addList items).2.Grows h') :
    h'.list ⟨h.lists.size⟩ = items := by
  obtain ⟨rest, hrest⟩ := hg.lists
  have hitems : h'.lists[h.lists.size]? = some items := by
    rw [← Array.getElem?_toList, ← hrest]
    simp [Heap.addList]
  rw [Heap.list, Array.getD_eq_getD_getElem?, hitems]
  rfl

/-- A new object stays what it is. -/
theorem object_eq {fields : Fields} (hg : (h.addFields fields).2.Grows h') :
    h'.object ⟨h.objects.size⟩ = ⟨none, fields, []⟩ := by
  obtain ⟨rest, hrest⟩ := hg.objects
  have hobject : h'.objects[h.objects.size]? = some ⟨none, fields, []⟩ := by
    rw [← Array.getElem?_toList, ← hrest]
    simp [Heap.addFields, Heap.addObject]
  rw [Heap.object, Array.getD_eq_getD_getElem?, hobject]
  rfl

end Heap.Grows

mutual

theorem Heap.grows_fromHost (h : Heap) : ∀ d : HostData, h.Grows (h.fromHost d).2
  | .null | .int _ | .long _ | .float _ | .double _ | .bool _ | .string _ | .object _
  | .hostClass _ => .refl h
  | .list items => (Heap.grows_fromHostItems h items).trans (.addList _ _)
  | .map entries => (Heap.grows_fromHostEntries h entries).trans (.addFields _ _)

theorem Heap.grows_fromHostItems (h : Heap) :
    ∀ ds : List HostData, h.Grows (h.fromHostItems ds).2
  | [] => .refl h
  | d :: ds => (Heap.grows_fromHost h d).trans (Heap.grows_fromHostItems _ ds)

theorem Heap.grows_fromHostEntries (h : Heap) :
    ∀ ds : List (String × HostData), h.Grows (h.fromHostEntries ds).2
  | [] => .refl h
  | (_, d) :: ds => (Heap.grows_fromHost h d).trans (Heap.grows_fromHostEntries _ ds)

end

/-! ## There and back -/

/-- All data fits where anything does. -/
theorem Heap.coerce_any (h : Heap) (d : HostData) : h.coerce .any d = .ok d := by
  cases d <;> rfl

theorem Heap.names_fromHostEntries (h : Heap) :
    ∀ ds : List (String × HostData), (h.fromHostEntries ds).1.map (·.1) = ds.map (·.1)
  | [] => rfl
  | (_, _) :: ds => congrArg _ (Heap.names_fromHostEntries _ ds)

theorem Fields.put_of_not_mem {name : String} (v : Value) {fields : Fields}
    (hnew : name ∉ fields.names) : fields.put name v = fields ++ [(name, v)] := by
  induction fields with
  | nil => rfl
  | cons field rest ih =>
    obtain ⟨k, old⟩ := field
    obtain ⟨hk, hrest⟩ := not_or.mp (mt List.mem_cons.mpr hnew)
    rw [Fields.put, if_neg (by simpa using Ne.symm hk), ih hrest]
    rfl

theorem Fields.foldl_put_of_nodup {pairs : List (String × Value)} (fields : Fields)
    (hnames : ((fields ++ pairs).map (·.1)).Nodup) :
    pairs.foldl (fun fields pair => Fields.put pair.1 pair.2 fields) fields = fields ++ pairs := by
  induction pairs generalizing fields with
  | nil => exact (List.append_nil fields).symm
  | cons pair rest ih =>
    have hnew : pair.1 ∉ fields.names := by
      rw [List.map_append, List.nodup_append] at hnames
      exact fun hmem => hnames.2.2 pair.1 hmem pair.1 List.mem_cons_self rfl
    rw [List.foldl_cons, Fields.put_of_not_mem pair.2 hnew, ih _ (by simpa using hnames),
      List.append_assoc]
    rfl

/-- Pairs whose names differ make fields as they are. -/
theorem Fields.ofPairs_of_nodup {pairs : List (String × Value)} (hnames : (pairs.map (·.1)).Nodup) :
    Fields.ofPairs pairs = pairs :=
  Fields.foldl_put_of_nodup [] hnames

section Back

open HostData

variable {h' : Heap}

/-- What comes after a part that had a result. -/
theorem Except.ok_of_bind {ε α β : Type} {x : Except ε α} {f : α → Except ε β} {b : β}
    (hx : (x >>= f) = .ok b) : ∃ a, x = .ok a ∧ f a = .ok b := by
  cases x with
  | error e => cases hx
  | ok a => exact ⟨a, rfl, hx⟩

/-- The shape of a list is made of the shapes of its items. -/
theorem Heap.exists_of_naturalWithin_list {d : HostData} {levels : Nat} {id : ListId}
    (hd : h'.naturalWithin (levels + 1) (.list id) = .ok d) :
    ∃ ds, (h'.list id).toList.mapM (h'.naturalWithin levels) = .ok ds ∧ d = .list ds := by
  obtain ⟨ds, hds, hlast⟩ := Except.ok_of_bind hd
  cases hlast
  exact ⟨ds, hds, rfl⟩

/-- The shape of an object is made of the shapes of its fields, in the order of their names. -/
theorem Heap.exists_of_naturalWithin_object {d : HostData} {levels : Nat} {id : ObjectId}
    (hd : h'.naturalWithin (levels + 1) (.object id) = .ok d) :
    ∃ ds, (h'.object id).fields.mapM (fun (name, v) => do
        return (name, ← h'.naturalWithin levels v)) = .ok ds ∧
      d = .map (ds.foldl (fun entries (name, d) => putSorted name d entries) []) := by
  obtain ⟨ds, hds, hlast⟩ := Except.ok_of_bind hd
  cases hlast
  exact ⟨ds, hds, rfl⟩

mutual

theorem Heap.same_naturalWithin : ∀ {d d' : HostData} {levels : Nat} {h : Heap}, d.Ordered →
    (h.fromHost d).2.Grows h' → h'.naturalWithin levels (h.fromHost d).1 = .ok d' → d.Same d'
  | .list items, d', levels + 1, h, ho, hg, hd => by
    have hlist : h'.list _ = (h.fromHostItems items).1.toArray := hg.list_eq
    obtain ⟨ds, hds, rfl⟩ := Heap.exists_of_naturalWithin_list hd
    rw [hlist] at hds
    exact .list (Heap.sameItems_naturalWithin ho ((Heap.Grows.addList _ _).trans hg) hds)
  | .map entries, d', levels + 1, h, ⟨hkeys, ho⟩, hg, hd => by
    have hnames : ((h.fromHostEntries entries).1.map (·.1)).Nodup := by
      rw [Heap.names_fromHostEntries]
      refine List.Pairwise.imp ?_ hkeys
      rintro key _ hlt rfl
      exact String.lt_irrefl key hlt
    have hobject : h'.object _ = ⟨none, Fields.ofPairs (h.fromHostEntries entries).1, []⟩ :=
      hg.object_eq
    obtain ⟨ds, hds, rfl⟩ := Heap.exists_of_naturalWithin_object hd
    rw [hobject, Fields.ofPairs_of_nodup hnames] at hds
    have hsame := Heap.sameEntries_naturalWithin ho ((Heap.Grows.addFields _ _).trans hg) hds
    rw [foldl_putSorted (hsame.keys_eq ▸ hkeys)]
    exact .map hsame
  | .int i, d', levels + 1, h, _, _, hd => by
    cases hd
    exact same_naturalNumber rfl
  | .long i, d', levels + 1, h, _, _, hd => by
    cases hd
    exact same_naturalNumber rfl
  | .double x, d', levels + 1, h, _, _, hd => by
    cases hd
    exact same_naturalNumber rfl
  | .null, d', levels + 1, h, _, _, hd | .bool _, d', levels + 1, h, _, _, hd
  | .string _, d', levels + 1, h, _, _, hd | .float _, d', levels + 1, h, _, _, hd
  | .object _, d', levels + 1, h, _, _, hd | .hostClass _, d', levels + 1, h, _, _, hd => by
    cases hd
    exact .refl _

theorem Heap.sameItems_naturalWithin : ∀ {ds ds' : List HostData} {levels : Nat} {h : Heap},
    OrderedItems ds → (h.fromHostItems ds).2.Grows h' →
      (h.fromHostItems ds).1.mapM (h'.naturalWithin levels) = .ok ds' → SameItems ds ds'
  | [], ds', levels, h, _, _, hds => by
    cases hds
    exact .nil
  | d :: ds, ds', levels, h, ho, hg, hds => by
    have hds : ((h.fromHost d).1 :: ((h.fromHost d).2.fromHostItems ds).1).mapM
        (h'.naturalWithin levels) = .ok ds' := hds
    rw [List.mapM_cons] at hds
    obtain ⟨d', hd, hds⟩ := Except.ok_of_bind hds
    obtain ⟨rest, hrest, hlast⟩ := Except.ok_of_bind hds
    cases hlast
    exact .cons (Heap.same_naturalWithin ho.1 ((Heap.grows_fromHostItems _ ds).trans hg) hd)
      (Heap.sameItems_naturalWithin ho.2 hg hrest)

theorem Heap.sameEntries_naturalWithin :
    ∀ {ds ds' : List (String × HostData)} {levels : Nat} {h : Heap},
    OrderedEntries ds → (h.fromHostEntries ds).2.Grows h' →
      (h.fromHostEntries ds).1.mapM (fun (name, v) => do
        return (name, ← h'.naturalWithin levels v)) = .ok ds' → SameEntries ds ds'
  | [], ds', levels, h, _, _, hds => by
    cases hds
    exact .nil
  | (key, d) :: ds, ds', levels, h, ho, hg, hds => by
    have hds : ((key, (h.fromHost d).1) :: ((h.fromHost d).2.fromHostEntries ds).1).mapM
        (fun (name, v) => do return (name, ← h'.naturalWithin levels v)) = .ok ds' := hds
    rw [List.mapM_cons] at hds
    obtain ⟨entry, hentry, hds⟩ := Except.ok_of_bind hds
    obtain ⟨d', hd, hkey⟩ := Except.ok_of_bind hentry
    cases hkey
    obtain ⟨rest, hrest, hlast⟩ := Except.ok_of_bind hds
    cases hlast
    exact .cons (Heap.same_naturalWithin ho.1 ((Heap.grows_fromHostEntries _ ds).trans hg) hd)
      (Heap.sameEntries_naturalWithin ho.2 hg hrest)

end

end Back

end ScriptEngine
