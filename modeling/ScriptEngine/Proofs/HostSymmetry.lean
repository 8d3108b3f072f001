import ScriptEngine.Proofs.Bisimilarity
/-!
# When equality of host objects is symmetric

Two host objects are compared by the class of the first one, which looks through a script instance
to the host instance inside it. A script instance has no comparison of its own: in front it is equal
to itself only, while behind a host instance it is equal to whatever its host instance is equal to.
So the order counts exactly where a comparison comes to two host objects of which the one behind is
a script instance.

* `Heap.isExtended` : the script instances among the host objects.
* `Heap.HostsAgree` : the classes of the host compare their own instances in either order alike.
* **`Heap.equal_symm_iff`** : values that are equal are equal the other way round exactly if no path
  of positions and field names leads from them to a host object and another one that is a script
  instance.

This is `equals` where it comes to host objects (`host_eq`). That the comparison of each class is
symmetric among its own instances is a hypothesis: a host may compare its objects as it likes.
-/

namespace ScriptEngine.Heap

variable {h : Heap} {a b : Value}

/-- Whether a host object is an instance of a script class, around a host instance. -/
def isExtended (h : Heap) (id : HostId) : Bool :=
  match h.hostObject id with
  | .extended .. => true
  | _ => false

/-- Comparing two objects that are no script instances gives one answer in either order. -/
def HostsAgree (h : Heap) : Prop :=
  ∀ x y, h.isExtended x = false → h.isExtended y = false → h.hostEqual x y = h.hostEqual y x

/-- No script instance lies in the value. -/
def ExtensionFree (h : Heap) (v : Value) : Prop :=
  ∀ id, h.Reaches v (.host id) → h.isExtended id = false

/-- A script instance in front is equal to itself only. -/
theorem hostEqual_of_isExtended {x y : HostId} (hx : h.isExtended x = true) :
    h.hostEqual x y = (x == y) := by
  unfold isExtended at hx
  unfold hostEqual hostEqualWithin
  cases hobject : h.hostObject x with
  | extended => simp
  | _ => simp [hobject] at hx

theorem not_differ_of_equal (hd : h.DistinctFields) (hab : h.equal a b = true) {path : List Place}
    {v w : Value} (hleads : h.Leads path a b v w) : ¬ h.Differ v w := by
  intro hdiffer
  rw [(equal_eq_false_iff_differ hd).mpr ⟨path, v, w, hleads, hdiffer⟩] at hab
  cases hab

theorem hostEqual_of_equal (hd : h.DistinctFields) (hab : h.equal a b = true) {path : List Place}
    {x y : HostId} (hleads : h.Leads path a b (.host x) (.host y)) : h.hostEqual x y = true := by
  by_contra hxy
  exact not_differ_of_equal hd hab hleads (.hosts (Bool.not_eq_true _ ▸ hxy))

/-- Equal host objects of which the second one is no script instance are equal the other way
round. -/
theorem hostEqual_symm (hagree : h.HostsAgree) {x y : HostId} (hxy : h.hostEqual x y = true)
    (hy : h.isExtended y = false) : h.hostEqual y x = true := by
  cases hx : h.isExtended x with
  | false => rw [hagree y x hy hx, hxy]
  | true =>
    rw [hostEqual_of_isExtended hx, beq_iff_eq] at hxy
    rw [hxy, hostEqual_self]

/-- Equal values are equal the other way round exactly if the script instances that they come to,
behind host objects, are these objects themselves. -/
theorem equal_symm_iff_of_equal (hd : h.DistinctFields) (hagree : h.HostsAgree)
    (hab : h.equal a b = true) :
    h.equal b a = true ↔
      ∀ path x y, h.Leads path a b (.host x) (.host y) → x = y ∨ h.isExtended y = false := by
  constructor
  · intro hba path x y hleads
    refine or_iff_not_imp_right.mpr fun hy => ?_
    have hyx := hostEqual_of_equal hd hba hleads.symm
    rw [hostEqual_of_isExtended (Bool.not_eq_false _ ▸ hy), beq_iff_eq] at hyx
    exact hyx.symm
  · intro hinstances
    by_contra hba
    obtain ⟨path, v, w, hleads, hdiffer⟩ :=
      (equal_eq_false_iff_differ hd).mp (Bool.not_eq_true _ ▸ hba)
    cases hdiffer with
    | told hdist => exact not_differ_of_equal hd hab hleads.symm (.told hdist.symm)
    | @hosts y x hyx =>
      have hxy := hostEqual_of_equal hd hab hleads.symm
      rcases hinstances path x y hleads.symm with rfl | hy
      · rw [hxy] at hyx
        cases hyx
      · rw [hostEqual_symm hagree hxy hy] at hyx
        cases hyx

/-- **When equality is symmetric**, if the classes of the host compare their own instances in either
order alike: equal values are equal the other way round exactly if no path leads from them to two
host objects of which the second one is a script instance and not the first one itself. In
particular the order does not count for values in which no script instance lies. -/
theorem equal_symm_iff (hd : h.DistinctFields) (hagree : h.HostsAgree) :
    (∀ a b, h.equal a b = true → (h.equal b a = true ↔
      ∀ path x y, h.Leads path a b (.host x) (.host y) → x = y ∨ h.isExtended y = false)) ∧
    ∀ a b, h.ExtensionFree a → h.ExtensionFree b → h.equal a b = h.equal b a := by
  have hiff {a b : Value} (hab : h.equal a b = true) := equal_symm_iff_of_equal hd hagree hab
  have hsymm {a b : Value} (hb : h.ExtensionFree b) (hab : h.equal a b = true) :
      h.equal b a = true :=
    (hiff hab).mpr fun path x y hleads => .inr (hb y hleads.symm.reaches)
  exact ⟨fun a b => hiff, fun a b ha hb => Bool.eq_iff_iff.mpr ⟨hsymm hb, hsymm ha⟩⟩

/-- Two boxes that hold the same number, a script instance around the second one, and lists of
each. -/
def boxes : Heap :=
  { Heap.initial with
    hostClasses := #[⟨"ByteArray", none, [], [], [], [], none⟩,
      ⟨"Box", none, [], [], [], [], some "x"⟩,
      ⟨"Sub", some ⟨1⟩, [], [], [], [], none⟩]
    hostObjects := #[.plain ⟨1⟩ [("x", .int 1)], .plain ⟨1⟩ [("x", .int 1)], .extended ⟨2⟩ ⟨1⟩ ⟨0⟩]
    lists := #[#[.host ⟨0⟩], #[.host ⟨2⟩]]
    objects := #[⟨none, [], []⟩] }

theorem boxes_distinctFields : boxes.DistinctFields :=
  distinctFields_initial.addObject List.nodup_nil

theorem boxes_hostsAgree : boxes.HostsAgree := by
  have hfirst : ∀ x < 3, ∀ y < 3, boxes.isExtended ⟨x⟩ = false → boxes.isExtended ⟨y⟩ = false →
      boxes.hostEqual ⟨x⟩ ⟨y⟩ = boxes.hostEqual ⟨y⟩ ⟨x⟩ := by decide +kernel
  -- beyond the three there are only objects that are compared by identity
  have hbeyond (n : Nat) (y : HostId) : boxes.hostEqual ⟨n + 3⟩ y = (⟨n + 3⟩ == y) := by
    have hobject : boxes.hostObject ⟨n + 3⟩ = .plain ⟨0⟩ [] := rfl
    have hequality : (boxes.hostClass ⟨0⟩).equality = none := rfl
    unfold hostEqual hostEqualWithin
    rw [hobject]
    cases boxes.hostObject (boxes.concrete y) <;> simp [hequality]
  have hbefore (n x : Nat) (hlt : x < 3) (hx : boxes.isExtended ⟨x⟩ = false) :
      boxes.hostEqual ⟨x⟩ ⟨n + 3⟩ = ((⟨n + 3⟩ : HostId) == ⟨x⟩) := by
    rcases x with _ | _ | _ | x
    · rfl
    · rfl
    · cases hx
    · omega
  rintro ⟨x⟩ ⟨y⟩ hx hy
  rcases Nat.lt_or_ge x 3 with hx3 | hx3
  · rcases Nat.lt_or_ge y 3 with hy3 | hy3
    · exact hfirst x hx3 y hy3 hx hy
    · obtain ⟨m, rfl⟩ := Nat.exists_eq_add_of_le' hy3
      rw [hbeyond, hbefore m x hx3 hx]
  · obtain ⟨n, rfl⟩ := Nat.exists_eq_add_of_le' hx3
    rcases Nat.lt_or_ge y 3 with hy3 | hy3
    · rw [hbeyond, hbefore n y hy3 hy]
    · obtain ⟨m, rfl⟩ := Nat.exists_eq_add_of_le' hy3
      rw [hbeyond, hbeyond, Bool.beq_comm]

/-- A list with a box is equal to one with a script instance around an equal box, but not the other
way round. -/
theorem equal_symm_iff_boxes : boxes.DistinctFields ∧ boxes.HostsAgree ∧
    boxes.equal (.list ⟨0⟩) (.list ⟨1⟩) = true ∧ ¬ boxes.equal (.list ⟨1⟩) (.list ⟨0⟩) = true := by
  have hequal : boxes.equal (.list ⟨0⟩) (.list ⟨1⟩) = true := by decide +kernel
  have hiff := (equal_symm_iff boxes_distinctFields boxes_hostsAgree).1 _ _ hequal
  refine ⟨boxes_distinctFields, boxes_hostsAgree, hequal, fun hback => ?_⟩
  have hleads : boxes.Leads [.item 0] (.list ⟨0⟩) (.list ⟨1⟩) (.host ⟨0⟩) (.host ⟨2⟩) :=
    .into (by decide) rfl rfl .here
  rcases hiff.mp hback _ _ _ hleads with hsame | hplain
  · exact absurd hsame (by decide)
  · exact absurd hplain (by decide)

end ScriptEngine.Heap
