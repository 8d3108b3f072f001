import ScriptEngine.Proofs.Conversions
/-!
# Descents into values

The text of a value and its form as data are made part by part, from the value down into what it
holds. Whoever goes down remembers what it is inside of and goes into none of that again. So it
comes to an end however values hold each other, and on the way it never meets what it is inside of
unless something holds itself.

* `Circular` : what reaches something that comes back to itself.
* `Heap.descent_induction` : what holds of a descent if it holds of the descents into the parts,
  holds of the descent from the top, with one level more than there are lists and objects.
-/

namespace ScriptEngine

open Relation

/-! ## Coming back -/

/-- Along the relation something is reached that comes back to itself. -/
def Circular {α : Type} (r : α → α → Prop) (a : α) : Prop :=
  ∃ b, ReflTransGen r a b ∧ TransGen r b b

namespace Circular

variable {α : Type} {r : α → α → Prop} {a b : α}

theorem head (hab : r a b) (hb : Circular r b) : Circular r a := by
  obtain ⟨c, hbc, hcycle⟩ := hb
  exact ⟨c, .head hab hbc, hcycle⟩

theorem of_return (ha : TransGen r a a) : Circular r a := ⟨a, .refl, ha⟩

/-- Whatever reaches a cycle has a successor that does. -/
theorem exists_head (ha : Circular r a) : ∃ b, r a b ∧ Circular r b := by
  obtain ⟨c, hac, hcycle⟩ := ha
  rcases ReflTransGen.cases_head hac with rfl | ⟨b, hab, hbc⟩
  · obtain ⟨b, hab, hba⟩ := TransGen.head'_iff.mp hcycle
    exact ⟨b, hab, a, hba, hcycle⟩
  · exact ⟨b, hab, c, hbc, hcycle⟩

end Circular

/-! ## Going down -/

namespace Heap

variable {h : Heap}

/-- A descent that goes into no value it is inside of already is no deeper than there are lists and
objects. So whatever each descent has from the descents into the parts, with one level less, the
descent from the top has. -/
theorem descent_induction (parts : Value → List Value) {P : Nat → List Value → Value → Prop}
    (hparts : ∀ v, parts v ≠ [] → v ∈ h.allContainers)
    (step : ∀ levels path v, (∀ p ∈ path, parts p ≠ []) →
      (v ∉ path → ∀ u ∈ parts v, P levels (v :: path) u) → P (levels + 1) path v) (v : Value) :
    P (h.containers + 1) [] v := by
  suffices hall : ∀ levels path v, path.Nodup → (∀ p ∈ path, parts p ≠ []) →
      h.containers < levels + path.length → P levels path v from
    hall _ _ v List.nodup_nil (List.forall_mem_nil _) (Nat.lt_succ_self _)
  intro levels
  induction levels with
  | zero =>
    intro path v hnodup hpath hlevels
    have := length_path_le hnodup fun p hp => hparts p (hpath p hp)
    omega
  | succ levels ih =>
    intro path v hnodup hpath hlevels
    refine step levels path v hpath fun hnew u hu =>
      ih (v :: path) u (List.nodup_cons.mpr ⟨hnew, hnodup⟩) ?_ ?_
    · exact List.forall_mem_cons.mpr ⟨List.ne_nil_of_mem hu, hpath⟩
    · rw [List.length_cons]
      omega

end Heap

end ScriptEngine
