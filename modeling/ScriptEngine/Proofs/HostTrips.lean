import Mathlib.Data.List.Perm.Basic
import ScriptEngine.Proofs.Conversions
/-!
# Values that cross to the host and come back

A value of constants, numbers, lists, plain objects and things of the host becomes data, and the
data becomes a value that is equal to it and of the same kinds at every place. The fields of an
object come back in the order of their names, and a whole number crosses as an integer.

* `Number.isNaN_widen` : a single that is a number stays one as a double.
* `Heap.Portable` : values of that kind. None of them contains itself.
* `Heap.Mirrors` : a value and what came back for it, part by part.
* `Heap.Mirrors.equal`, `Heap.Mirrors.typeNames` : the two are equal and of the same kinds at every
  place.
* **`HostRun.toHost_fromHost`** : every portable value becomes data of any type, and the data
  becomes an equal value of the same kinds in every state that has kept the lists and objects.

This is `to_host` to the type that takes everything, and `from_host`. Functions and classes of
scripts have no shape for the host, and an instance of a class without a host class crosses as its
fields do; both are out of scope, and so is what is not a number, which is not equal to itself.
-/

namespace ScriptEngine

/-! ## Singles as doubles -/

namespace Number

open Float.Model.UnpackedFloat

theorem nearest_le_infinity (f : Format) (num den : Nat) : f.nearest num den ≤ f.infinity := by
  unfold Format.nearest
  split
  · exact Nat.zero_le _
  · exact Nat.min_le_left _ _

theorem isNaN_unpack {spec : Float.Model.Format} (b : BitVec spec.numBits) :
    (unpack spec b).isNaN = isNaNBits b := by
  unfold unpack isNaNBits
  by_cases hexponent : unpackExponent b = -BitVec.ofNat spec.exponentBits 1
  · by_cases hmantissa : unpackMantissa b = BitVec.ofNat spec.mantissaBitsWithoutImplicit 0 <;>
      simp [hexponent, hmantissa, isNaN]
  · simp only [hexponent, if_false, false_and, decide_false]
    split_ifs <;> rfl

/-- No ratio is rounded to an encoding of what is not a number: the greatest one is that of
infinity. -/
theorem isNaN_ofBits_encodeRatio (negative : Bool) (num den : Nat) :
    (ofBits (Format.binary64.encodeRatio negative num den)).isNaN = false := by
  have hle := nearest_le_infinity .binary64 num den
  have hinfinity : Format.binary64.infinity = 2047 * 2 ^ 52 := by decide
  have hsign : Format.binary64.signBit = 2 ^ 63 := by decide
  rw [hinfinity] at hle
  unfold Format.encodeRatio
  generalize Format.binary64.nearest num den = n at hle ⊢
  obtain ⟨s, hs, hbits⟩ : ∃ s ≤ 1,
      n + (if negative then Format.binary64.signBit else 0) = n + s * 2 ^ 63 := by
    cases negative
    · exact ⟨0, by decide, rfl⟩
    · exact ⟨1, le_rfl, by simp [hsign]⟩
  rw [hbits]
  have hb : (UInt64.ofNat (n + s * 2 ^ 63)).toBitVec.toNat = n + s * 2 ^ 63 := by
    rw [UInt64.toNat_toBitVec, UInt64.toNat_ofNat']
    omega
  change (unpack .binary64 (pack .binary64
    (unpack .binary64 (UInt64.ofNat (n + s * 2 ^ 63)).toBitVec))).isNaN = false
  generalize (UInt64.ofNat (n + s * 2 ^ 63)).toBitVec = b at hb ⊢
  have hnumber : @isNaNBits .binary64 b = false := by
    refine decide_eq_false ?_
    rintro ⟨hexponent, hmantissa⟩
    refine hmantissa (BitVec.eq_of_toNat_eq ?_)
    have hones := unpackExponent_eq_ones.mp hexponent
    have hfraction := toNat_unpackMantissa b
    rw [hb] at hones hfraction
    rw [hfraction, BitVec.toNat_zero]
    omega
  have hpack : pack .binary64 (unpack .binary64 b) = b := by
    refine (@Float.Model.UnpackedFloat.pack_unpack .binary64 b (by decide)).trans ?_
    rw [hnumber]
    rfl
  rw [hpack]
  exact (@isNaN_unpack .binary64 b).trans hnumber

theorem isNaN_of_exact32 {f : Float32} (h : exact32 f = .nan) : f.isNaN = true := by
  have hplaces : Nat.pow 2 (Format.binary32.precision - 1) = 2 ^ 23 := rfl
  have hexponents : Nat.pow 2 Format.binary32.exponentBits = 2 ^ 8 := rfl
  have hexponent : (@unpackExponent .binary32 f.toBits.toBitVec).toNat =
      f.toBits.toNat / 2 ^ 23 % 2 ^ 8 := by
    simp [unpackExponent, BitVec.extractLsb_toNat, Nat.shiftRight_eq_div_pow]
  have hmantissa : (@unpackMantissa .binary32 f.toBits.toBitVec).toNat =
      f.toBits.toNat % 2 ^ 23 := by
    simp [unpackMantissa, BitVec.extractLsb_toNat]
  unfold exact32 Format.decode at h
  simp only [hplaces, hexponents] at h
  split_ifs at h with hones hzero
  change (unpack .binary32 f.toBits.toBitVec).isNaN = true
  rw [isNaN_unpack]
  refine decide_eq_true ⟨BitVec.eq_of_toNat_eq (hexponent.trans hones), fun hfraction => hzero ?_⟩
  exact hmantissa.symm.trans (congrArg BitVec.toNat hfraction)

/-- A single that is a number is one as a double. -/
theorem isNaN_widen {f : Float32} (hf : f.isNaN = false) : (widen f).isNaN = false := by
  unfold widen
  cases h : exact32 f with
  | nan =>
    rw [isNaN_of_exact32 h] at hf
    cases hf
  | infinite negative => cases negative <;> decide +kernel
  | finite negative m e => cases e <;> exact isNaN_ofBits_encodeRatio _ _ _

end Number

/-! ## Values and what comes back for them -/

namespace Heap

open HostData

variable {h h₁ h' : Heap} {v w : Value}

/-- A value of null, truth values, strings, numbers, things of the host, and lists and plain objects
of the heap that hold such values. What is not a number is left out. -/
inductive Portable (h : Heap) : Value → Prop
  | null : Portable h .null
  | bool (b : Bool) : Portable h (.bool b)
  | string (s : String) : Portable h (.string s)
  | number {n : Float} (hn : n.isNaN = false) : Portable h (.number n)
  | float {f : Float32} (hf : f.isNaN = false) : Portable h (.float f)
  | host (id : HostId) : Portable h (.host id)
  | hostClass (id : HostClassId) : Portable h (.hostClass id)
  | list {id : ListId} (hid : id.index < h.lists.size)
      (hitems : ∀ v ∈ (h.list id).toList, Portable h v) : Portable h (.list id)
  | object {id : ObjectId} (hid : id.index < h.objects.size) (hplain : (h.object id).cls = none)
      (hnames : (h.object id).fields.names.Nodup)
      (hfields : ∀ e ∈ (h.object id).fields, Portable h e.2) : Portable h (.object id)

/-- The first value is what comes back for the second one: the same constant or thing of the host,
an equal number of the same precision, a list of what comes back for the items, or a plain object
with what comes back for the fields under the same names, in another order maybe. -/
inductive Mirrors (h : Heap) : Value → Value → Prop
  | leaf {v : Value} (hv : v.isLeaf) : Mirrors h v v
  | host (id : HostId) : Mirrors h (.host id) (.host id)
  | number {v w : Value} {x y : Float} (hkind : v.typeName = w.typeName) (hv : v.asNumber? = some x)
      (hw : w.asNumber? = some y) (hxy : (x == y) = true) : Mirrors h v w
  | list {x y : ListId} (hsize : (h.list x).size = (h.list y).size)
      (hitems : ∀ p ∈ (h.list x).toList.zip (h.list y).toList, Mirrors h p.1 p.2) :
      Mirrors h (.list x) (.list y)
  | object {x y : ObjectId} {fields : Fields} (hx : (h.object x).cls = none)
      (hy : (h.object y).cls = none) (hperm : fields.Perm (h.object y).fields)
      (hnames : (h.object x).fields.names = fields.names) (hdistinct : fields.names.Nodup)
      (hfields : ∀ p ∈ (h.object x).fields.zip fields, Mirrors h p.1.2 p.2.2) :
      Mirrors h (.object x) (.object y)

/-- The order of fields does not count for what a name finds. -/
theorem get?_of_perm {fields fields' : Fields} (hperm : fields.Perm fields')
    (hdistinct : fields.names.Nodup) (name : String) : fields'.get? name = fields.get? name := by
  have hdistinct' : fields'.names.Nodup := (hperm.map _).nodup_iff.mp hdistinct
  refine Option.ext fun v => ⟨fun hv => ?_, fun hv => ?_⟩
  · exact Fields.get?_of_mem hdistinct (hperm.mem_iff.mpr (Fields.mem_of_get? hv))
  · exact Fields.get?_of_mem hdistinct' (hperm.mem_iff.mp (Fields.mem_of_get? hv))

/-- What a comparison does first with a value and what came back for it. -/
theorem Mirrors.look (hm : h.Mirrors v w) (assumed : List (Value × Value)) :
    h.look assumed v w = .error true ∨
      ∃ ps : List (Value × Value), h.look assumed v w = .ok (ps.map some) ∧
        ∀ p ∈ ps, h.Mirrors p.1 p.2 := by
  cases hm with
  | @leaf v hv =>
    have hatoms : h.look assumed v v = .error (h.equalAtoms v v) := by
      cases v <;> first | rfl | cases hv
    rw [hatoms, equalAtoms_of_leaves hv hv, beq_self_eq_true]
    exact .inl rfl
  | host id => exact .inl (by simp [Heap.look, equalAtoms, hostEqual, hostEqualWithin])
  | number hkind hv hw hxy =>
    have hatoms : h.look assumed v w = .error (h.equalAtoms v w) := by
      cases v <;> cases hv <;> cases w <;> cases hw <;> rfl
    rw [hatoms, equalAtoms_of_numbers hv hw, hxy]
    exact .inl rfl
  | list hsize hitems =>
    exact (look_lists_cases assumed hsize).imp_right fun hok => ⟨_, hok, hitems⟩
  | @object x y fields hx hy hperm hnames hdistinct hfields =>
    have hlength : (h.object x).fields.length = (h.object y).fields.length := by
      rw [← hperm.length_eq]
      simpa [Fields.names] using congrArg List.length hnames
    refine (look_objects_cases assumed hx hy hlength).imp_right fun hok => ?_
    simp only [get?_of_perm hperm hdistinct] at hok
    rw [map_get?_eq_zip hnames hdistinct] at hok
    refine ⟨_, hok, fun p hp => ?_⟩
    obtain ⟨q, hq, rfl⟩ := List.mem_map.mp hp
    exact hfields q hq

/-- What came back for a value is equal to it. -/
theorem Mirrors.equal (hm : h.Mirrors v w) : h.equal v w = true :=
  equal_of_related (fun assumed _ _ hm => hm.look assumed) hm

/-! ### The same kinds at every place -/

/-- What a path of positions and field names leads to. -/
def at? (h : Heap) : Value → List Place → Option Value
  | v, [] => some v
  | v, place :: path => (h.part? v place).bind fun u => h.at? u path

theorem Mirrors.typeName (hm : h.Mirrors v w) : v.typeName = w.typeName := by
  cases hm with
  | number hkind => exact hkind
  | _ => rfl

/-- Under a name are fields of both lists of fields or of none, and those are in the same place. -/
theorem get?_of_names_eq {fields fields' : Fields} (hnames : fields.names = fields'.names)
    (name : String) :
    (fields.get? name = none ∧ fields'.get? name = none) ∨
      ∃ p ∈ fields.zip fields', fields.get? name = some p.1.2 ∧ fields'.get? name = some p.2.2 := by
  induction fields generalizing fields' with
  | nil =>
    cases fields' with
    | nil => exact .inl ⟨rfl, rfl⟩
    | cons => cases hnames
  | cons field fields ih =>
    cases fields' with
    | nil => cases hnames
    | cons field' fields' =>
      obtain ⟨k, v⟩ := field
      obtain ⟨k', v'⟩ := field'
      obtain ⟨rfl, hrest⟩ : k = k' ∧ Fields.names fields = Fields.names fields' :=
        List.cons.inj hnames
      by_cases hk : name = k
      · refine .inr ⟨((k, v), (k, v')), List.mem_cons_self, ?_⟩
        simp [Fields.get?, hk]
      · have hskip (v : Value) (fields : Fields) : Fields.get? ((k, v) :: fields) name =
            fields.get? name := by
          simp [Fields.get?, List.lookup_cons, beq_false_of_ne hk]
        rw [hskip, hskip]
        refine (ih hrest).imp_right ?_
        rintro ⟨p, hp, hboth⟩
        exact ⟨p, List.mem_cons_of_mem _ hp, hboth⟩

/-- What came back for a value has parts at the same places, and they came back for its parts. -/
theorem Mirrors.part? (hm : h.Mirrors v w) (place : Place) :
    (h.part? v place = none ∧ h.part? w place = none) ∨
      ∃ v' w', h.part? v place = some v' ∧ h.part? w place = some w' ∧ h.Mirrors v' w' := by
  cases hm with
  | @leaf v hv => exact .inl (by cases v <;> cases place <;> first | exact ⟨rfl, rfl⟩ | cases hv)
  | host id => exact .inl ⟨rfl, rfl⟩
  | number _ hv hw =>
    exact .inl (by cases v <;> cases hv <;> cases w <;> cases hw <;> exact ⟨rfl, rfl⟩)
  | @list x y hsize hitems =>
    cases place with
    | field name => exact .inl ⟨rfl, rfl⟩
    | item i =>
      by_cases hi : i < (h.list x).size
      · have hi' : i < (h.list y).size := hsize ▸ hi
        refine .inr ⟨(h.list x)[i],
          (h.list y)[i], by simp [Heap.part?, hi], by simp [Heap.part?, hi'], ?_⟩
        refine hitems ((h.list x)[i], (h.list y)[i]) (List.mem_iff_getElem?.mpr ⟨i, ?_⟩)
        simp [hi, hi']
      · have hi' : ¬ i < (h.list y).size := hsize ▸ hi
        exact .inl (by simp [Heap.part?, hi, hi'])
  | @object x y fields hx hy hperm hnames hdistinct hfields =>
    cases place with
    | item i => exact .inl ⟨rfl, rfl⟩
    | field name =>
      simp only [Heap.part?, get?_of_perm hperm hdistinct name]
      refine (get?_of_names_eq hnames name).imp_right ?_
      rintro ⟨p, hp, hv, hw⟩
      exact ⟨p.1.2, p.2.2, hv, hw, hfields p hp⟩

/-- What came back for a value is of the same kinds at every place. -/
theorem Mirrors.typeNames (hm : h.Mirrors v w) (path : List Place) :
    (h.at? v path).map Value.typeName = (h.at? w path).map Value.typeName := by
  induction path generalizing v w with
  | nil => exact congrArg some hm.typeName
  | cons place path ih =>
    rcases hm.part? place with ⟨hv, hw⟩ | ⟨v', w', hv, hw, hm'⟩
    · simp [at?, hv, hw]
    · simpa [at?, hv, hw] using ih hm'

/-- Portable values are kept as they are, whatever else there is. -/
theorem Portable.at?_eq (hv : h.Portable v) (hg : h.Grows h') (path : List Place) :
    h'.at? v path = h.at? v path := by
  induction path generalizing v with
  | nil => rfl
  | cons place path ih =>
    have hparts : h'.part? v place = h.part? v place ∧
        ∀ u, h.part? v place = some u → h.Portable u := by
      cases hv with
      | @list id hid hitems =>
        cases place with
        | field name => exact ⟨rfl, fun u hu => by cases hu⟩
        | item i =>
          refine ⟨by simp only [Heap.part?, hg.list_of_lt hid], fun u hu => hitems u ?_⟩
          exact Array.mem_toList_iff.mpr (Array.mem_of_getElem? hu)
      | @object id hid _ _ hfields =>
        cases place with
        | item i => exact ⟨rfl, fun u hu => by cases hu⟩
        | field name =>
          exact ⟨by simp only [Heap.part?, hg.object_of_lt hid], fun u hu =>
            hfields _ (Fields.mem_of_get? hu)⟩
      | _ => exact ⟨by cases place <;> rfl, fun u hu => by cases place <;> cases hu⟩
    cases hu : h.part? v place with
    | none => simp [at?, hparts.1, hu]
    | some u => simp [at?, hparts.1, hu, ih (hparts.2 u hu)]

/-! ## Coming back -/

/-- In every heap that keeps this one, the data becomes what comes back for the value, and remains
that. -/
def Revives (h : Heap) (v : Value) (d : HostData) : Prop :=
  ∀ h₁ h' : Heap, h.Grows h₁ → (h₁.fromHost d).2.Grows h' → h'.Mirrors (h₁.fromHost d).1 v

/-- Items come back one after another. -/
theorem revives_items {vs : List Value} {ds : List HostData} (hs : List.Forall₂ h.Revives vs ds)
    (hg : h.Grows h₁) (hg' : (h₁.fromHostItems ds).2.Grows h') :
    List.Forall₂ h'.Mirrors (h₁.fromHostItems ds).1 vs := by
  induction hs generalizing h₁ with
  | nil => exact .nil
  | @cons v d vs ds hd hds ih =>
    exact .cons (hd h₁ h' hg ((grows_fromHostItems _ ds).trans hg'))
      (ih (hg.trans (grows_fromHost h₁ d)) hg')

/-- Entries come back as fields of the same names. -/
theorem revives_entries {fields : Fields} {entries : List (String × HostData)}
    (hs : List.Forall₂ (fun m e => m.1 = e.1 ∧ h.Revives e.2 m.2) entries fields) (hg : h.Grows h₁)
    (hg' : (h₁.fromHostEntries entries).2.Grows h') :
    List.Forall₂ (fun e' e => e'.1 = e.1 ∧ h'.Mirrors e'.2 e.2) (h₁.fromHostEntries entries).1
      fields := by
  induction hs generalizing h₁ with
  | nil => exact .nil
  | @cons m e entries fields hm hms ih =>
    exact .cons ⟨hm.1, hm.2 h₁ h' hg ((grows_fromHostEntries _ entries).trans hg')⟩
      (ih (hg.trans (grows_fromHost h₁ m.2)) hg')

theorem revives_number {n : Float} (hn : n.isNaN = false) :
    h.Revives (.number n) (naturalNumber n) := by
  have hrevives {d : HostData} {x : Float} (hd : ∀ h₁ : Heap, h₁.fromHost d = (.number x, h₁))
      (hx : (x == n) = true) : h.Revives (.number n) d := by
    intro h₁ h' _ _
    rw [hd]
    exact .number rfl rfl rfl hx
  rcases naturalNumber_cases n with hdouble | ⟨i, hint | hlong, hin⟩
  · rw [hdouble]
    exact hrevives (fun _ => rfl) (Number.beq_self_iff.mpr hn)
  · rw [hint]
    exact hrevives (fun _ => rfl) hin
  · rw [hlong]
    exact hrevives (fun _ => rfl) hin

theorem revives_list {id : ListId} (hid : id.index < h.lists.size) {ds : List HostData}
    (hs : List.Forall₂ h.Revives (h.list id).toList ds) : h.Revives (.list id) (.list ds) := by
  intro h₁ h' hg hg'
  have hgrown : h₁.Grows h' := (grows_fromHost h₁ (.list ds)).trans hg'
  have hnew : h'.list _ = (h₁.fromHostItems ds).1.toArray := hg'.list_eq
  have hold : h'.list id = h.list id := (hg.trans hgrown).list_of_lt hid
  have hmirrors := revives_items hs hg ((Grows.addList _ _).trans hg')
  refine .list ?_ ?_
  · rw [hnew, hold]
    simpa using hmirrors.length_eq
  · rw [hnew, hold]
    intro p hp
    exact (List.forall₂_iff_zip.mp hmirrors).2 hp

theorem revives_object {id : ObjectId} (hid : id.index < h.objects.size)
    (hplain : (h.object id).cls = none) {fields : Fields} (hperm : fields.Perm (h.object id).fields)
    (hdistinct : fields.names.Nodup) {entries : List (String × HostData)}
    (hs : List.Forall₂ (fun m e => m.1 = e.1 ∧ h.Revives e.2 m.2) entries fields) :
    h.Revives (.object id) (.map entries) := by
  intro h₁ h' hg hg'
  have hgrown : h₁.Grows h' := (grows_fromHost h₁ (.map entries)).trans hg'
  have hold : h'.object id = h.object id := (hg.trans hgrown).object_of_lt hid
  have hmirrors := revives_entries hs hg ((Grows.addFields _ _).trans hg')
  have hsame : Fields.names (h₁.fromHostEntries entries).1 = fields.names := by
    unfold Fields.names
    rw [← List.forall₂_eq_eq_eq, List.forall₂_map_left_iff, List.forall₂_map_right_iff]
    exact hmirrors.imp fun _ _ hm => hm.1
  have hnew : h'.object _ = ⟨none, Fields.ofPairs (h₁.fromHostEntries entries).1, []⟩ :=
    hg'.object_eq
  rw [Fields.ofPairs_of_nodup (by rw [← Fields.names, hsame]; exact hdistinct)] at hnew
  refine .object ?_ ?_ ?_ ?_ hdistinct ?_
  · rw [hnew]
  · rw [hold, hplain]
  · rw [hold]
    exact hperm
  · rw [hnew, hsame]
  · rw [hnew]
    intro p hp
    exact ((List.forall₂_iff_zip.mp hmirrors).2 hp).2

/-! ## Crossing -/

theorem perm_putSorted {key : String} {d : HostData} {entries : List (String × HostData)}
    (hnew : key ∉ entries.map (·.1)) : (putSorted key d entries).Perm ((key, d) :: entries) := by
  induction entries with
  | nil => rfl
  | cons entry rest ih =>
    obtain ⟨k, e⟩ := entry
    obtain ⟨hk, hrest⟩ := not_or.mp (mt List.mem_cons.mpr hnew)
    unfold putSorted
    rw [if_neg (show ¬ (k == key) = true by simpa using Ne.symm hk)]
    split_ifs
    · rfl
    · exact ((ih hrest).cons _).trans (.swap _ _ _)

/-- Entries of different names all get into the map. -/
theorem perm_foldl_putSorted {entries before : List (String × HostData)}
    (hdistinct : ((before ++ entries).map (·.1)).Nodup) :
    (entries.foldl (fun entries (name, d) => putSorted name d entries) before).Perm
      (before ++ entries) := by
  induction entries generalizing before with
  | nil => rw [List.append_nil]; rfl
  | cons entry rest ih =>
    obtain ⟨key, d⟩ := entry
    have hnew : key ∉ before.map (·.1) := by
      rw [List.map_append, List.nodup_append] at hdistinct
      exact fun hmem => hdistinct.2.2 key hmem key List.mem_cons_self rfl
    have hmoved : (putSorted key d before ++ rest).Perm (before ++ (key, d) :: rest) :=
      ((perm_putSorted hnew).append_right rest).trans List.perm_middle.symm
    exact (ih ((hmoved.map _).nodup_iff.mpr hdistinct)).trans hmoved

/-- What holds of a portable value whenever it holds of its parts holds of all portable values. -/
theorem Portable.of_parts {P : Value → Prop}
    (hstep : ∀ v, h.Portable v → (∀ u ∈ h.parts v, P u) → P v) (hv : h.Portable v) : P v := by
  induction hv with
  | list hid hitems ih => exact hstep _ (.list hid hitems) ih
  | object hid hplain hnames hfields ih =>
    refine hstep _ (.object hid hplain hnames hfields) fun u hu => ?_
    obtain ⟨e, he, rfl⟩ := List.mem_map.mp hu
    exact ih e he
  | null => exact hstep _ .null (List.forall_mem_nil _)
  | bool b => exact hstep _ (.bool b) (List.forall_mem_nil _)
  | string s => exact hstep _ (.string s) (List.forall_mem_nil _)
  | number hn => exact hstep _ (.number hn) (List.forall_mem_nil _)
  | float hf => exact hstep _ (.float hf) (List.forall_mem_nil _)
  | host id => exact hstep _ (.host id) (List.forall_mem_nil _)
  | hostClass id => exact hstep _ (.hostClass id) (List.forall_mem_nil _)

theorem Portable.assemble (hv : h.Portable v) (ds : List HostData) :
    ∃ d, h.assemble ds v = .ok d := by
  cases hv <;> exact ⟨_, rfl⟩

/-- Portable values do not contain themselves. -/
theorem Portable.not_endless (hv : h.Portable v) : ¬ h.Endless v := by
  refine hv.of_parts (P := fun v => ¬ h.Endless v) fun v _ ih hendless => ?_
  obtain ⟨u, hvu, hu⟩ := hendless.exists_awaits
  exact ih u hvu.mem_parts hu

/-- The conversion of a portable value comes to no error. -/
theorem Portable.naturalWithin_ne_error (hv : h.Portable v) (levels : Nat) (e : HostError) :
    h.naturalWithin levels v ≠ .error (some e) := by
  refine hv.of_parts (P := fun v => ∀ levels, h.naturalWithin levels v ≠ .error (some e))
    (fun v hv ih levels herror => ?_) levels
  cases levels with
  | zero => cases herror
  | succ levels =>
    rw [naturalWithin_succ] at herror
    cases hparts : (h.parts v).mapM (h.naturalWithin levels) with
    | ok ds =>
      obtain ⟨d, hd⟩ := hv.assemble ds
      rw [hparts] at herror
      cases hd.symm.trans herror
    | error e' =>
      rw [hparts] at herror
      cases herror
      obtain ⟨before, u, after, hsplit, -, hu⟩ := Except.exists_of_mapM_eq_error hparts
      exact ih u (hsplit ▸ List.mem_append_right _ List.mem_cons_self) levels hu

/-- What goes with the values of some fields goes with the fields under their names. -/
theorem forall₂_names_zip {R : Value → HostData → Prop} {fields : Fields} {ds : List HostData}
    (hs : List.Forall₂ R (fields.map (·.2)) ds) :
    List.Forall₂ (fun m e => m.1 = e.1 ∧ R e.2 m.2) (fields.names.zip ds) fields := by
  induction fields generalizing ds with
  | nil => exact .nil
  | cons field fields ih =>
    cases hs with
    | cons hd hs => exact .cons ⟨rfl, hd⟩ (ih hs)

/-- The shape of a portable value comes back for it. -/
theorem Portable.revives (hv : h.Portable v) {levels : Nat} {d : HostData}
    (hd : h.naturalWithin levels v = .ok d) : h.Revives v d := by
  refine hv.of_parts (P := fun v => ∀ levels d, h.naturalWithin levels v = .ok d → h.Revives v d)
    (fun v hv ih levels d hd => ?_) levels d hd
  cases levels with
  | zero => cases hd
  | succ levels =>
    rw [naturalWithin_succ] at hd
    obtain ⟨ds, hds, hd⟩ := Except.ok_of_bind hd
    have hparts : List.Forall₂ h.Revives (h.parts v) ds := by
      have hall := forall₂_of_mapM hds
      rw [List.forall₂_iff_zip] at hall ⊢
      exact ⟨hall.1, fun hp => ih _ (List.of_mem_zip hp).1 levels _ (hall.2 hp)⟩
    cases hv with
    | null => cases hd; exact fun _ _ _ _ => .leaf rfl
    | bool b => cases hd; exact fun _ _ _ _ => .leaf rfl
    | string s => cases hd; exact fun _ _ _ _ => .leaf rfl
    | hostClass id => cases hd; exact fun _ _ _ _ => .leaf rfl
    | host id => cases hd; exact fun _ _ _ _ => .host id
    | number hn => cases hd; exact revives_number hn
    | float hf =>
      cases hd
      exact fun _ _ _ _ => .number rfl rfl rfl (Number.beq_self_iff.mpr (Number.isNaN_widen hf))
    | list hid hitems => cases hd; exact revives_list hid hparts
    | @object id hid hplain hnames hfields =>
      cases hd
      have hlength : (h.object id).fields.names.length = ds.length := by
        simpa [Fields.names, parts] using hparts.length_eq
      have hkeys : ((h.object id).fields.names.zip ds).map (·.1) = (h.object id).fields.names :=
        List.map_fst_zip hlength.le
      have hdistinct : (List.map (·.1) ([] ++ (h.object id).fields.names.zip ds)).Nodup := by
        rw [List.nil_append, hkeys]
        exact hnames
      have hentries := perm_foldl_putSorted hdistinct
      have hmembers : List.Forall₂ (fun m e => m.1 = e.1 ∧ h.Revives e.2 m.2)
          ((h.object id).fields.names.zip ds) (h.object id).fields := forall₂_names_zip hparts
      obtain ⟨fields, hfields', hperm⟩ := List.perm_comp_forall₂ hentries hmembers
      exact revives_object hid hplain hperm ((hperm.map _).nodup_iff.mpr hnames) hfields'

end Heap

namespace HostRun

variable {w : World} {v : Value}

/-- **A portable value survives the trip through the host**: it becomes data of any type, and the
state stays as it is; in every state that has kept the lists and objects the data becomes a value
that is equal to it and of the same kinds at every place. -/
theorem toHost_fromHost (hv : w.heap.Portable v) : ∃ d, toHost .any v w = .ok d w ∧
    ∀ later : World, w.heap.Grows later.heap → ∃ v' heap,
      (Run.fromHost d : HostRun Value) later = .ok v' { later with heap } ∧ later.heap.Grows heap ∧
        heap.equal v' v = true ∧
          ∀ path, (heap.at? v' path).map Value.typeName =
            (w.heap.at? v path).map Value.typeName := by
  cases hd : w.heap.naturalWithin (w.heap.containers + 1) v with
  | error e =>
    cases e with
    | none => exact absurd (Heap.naturalWithin_eq_none_iff.mp hd) hv.not_endless
    | some e => exact absurd hd (hv.naturalWithin_ne_error _ e)
  | ok d =>
    have hnatural : natural v w = .ok d w := by rw [natural, hd]
    have hcoerced : heap (·.coerce .any d) w = .ok (.ok d) w := Run.read_of_eq (Heap.coerce_any _ d)
    refine ⟨d, ?_, fun later hlater => ⟨_, _, rfl, Heap.grows_fromHost _ d, ?_⟩⟩
    · rw [toHost, Run.bind_of_ok hnatural, Run.bind_of_ok hcoerced]
      rfl
    · have hmirrors := hv.revives hd later.heap _ hlater (.refl _)
      refine ⟨hmirrors.equal, fun path => ?_⟩
      rw [hmirrors.typeNames, hv.at?_eq (hlater.trans (Heap.grows_fromHost _ d))]

/-- An object whose fields are not in the order of their names: a number beyond the integers, one
with a fraction, a single, and a list that holds an empty list twice, a host object and an
integer. -/
def luggage : World :=
  let w := World.initial .default 0 0
  let heap := { w.heap with
    lists := #[#[], #[.list ⟨0⟩, .list ⟨0⟩, .host ⟨0⟩, .number (-3)]]
    objects := #[⟨none,
      [("z", .number 1e300), ("b", .number 0.5), ("y", .float 0.25), ("a", .list ⟨1⟩)], []⟩]
    hostObjects := #[.plain bytesClass []] }
  { w with heap }

theorem luggage_portable : luggage.heap.Portable (.object ⟨0⟩) := by
  have hinner : luggage.heap.Portable (.list ⟨0⟩) := .list (by decide) (List.forall_mem_nil _)
  have hlist : luggage.heap.Portable (.list ⟨1⟩) := by
    refine .list (by decide) fun v hv => ?_
    have hv : v = .list ⟨0⟩ ∨ v = .host ⟨0⟩ ∨ v =
      .number (-3) := by simpa [Heap.list, luggage] using hv
    rcases hv with rfl | rfl | rfl
    · exact hinner
    · exact .host _
    · exact .number (by decide +kernel)
  refine .object (by decide) rfl (by decide) fun e he => ?_
  have he : e = ("z", .number 1e300) ∨ e = ("b", .number 0.5) ∨ e = ("y", .float 0.25) ∨
      e = ("a", .list ⟨1⟩) := by
    simpa [Heap.object, luggage] using he
  rcases he with rfl | rfl | rfl | rfl
  · exact .number (by decide +kernel)
  · exact .number (by decide +kernel)
  · exact .float (by decide +kernel)
  · exact hlist

theorem toHost_fromHost_luggage : luggage.heap.Portable (.object ⟨0⟩) ∧
    ∃ d, toHost .any (.object ⟨0⟩) luggage = .ok d luggage ∧ ∃ v' heap,
      (Run.fromHost d : HostRun Value) luggage = .ok v' { luggage with heap } ∧
        heap.equal v' (.object ⟨0⟩) = true ∧ (heap.at? v' [.field "y"]).map Value.typeName =
          some "Float" := by
  obtain ⟨d, hd, hback⟩ := toHost_fromHost luggage_portable
  obtain ⟨v', heap, hv', -, hequal, hkinds⟩ := hback luggage (.refl _)
  exact ⟨luggage_portable, d, hd, v', heap, hv', hequal, hkinds [.field "y"]⟩

end HostRun

end ScriptEngine
