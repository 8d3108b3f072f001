import Mathlib.Data.List.Basic
import ScriptEngine.Text.Charset
/-!
# Encodings of text

An encoding loses nothing if no code of a character begins with that of another one: then a text is
read back character by character. The codes of characters in 16-bit units are such, since the first
half of a pair is in a range that no character has, and so are the bytes of a unit in either order.

* `Charset.limit?` : how many characters an encoding of single bytes has.
* `Charset.flatMap_inj_of_code` : what is written code by code is read back.
* `Charset.swapPairs`, `Charset.encode_utf16LittleEndian` : the two orders of bytes.
* **`Charset.encode_injective`** : the encodings of all characters lose nothing.
* `Charset.toNat_encode` : what the encodings of single bytes keep.
-/

namespace ScriptEngine.Charset

/-- How many characters an encoding of single bytes has; the others have all. -/
def limit? : Charset → Option Nat
  | latin1 => some 0x100
  | ascii => some 0x80
  | utf8 | utf16 | utf16BigEndian | utf16LittleEndian => none

/-! ## Codes -/

/-- What is written code by code is read back, if no code begins with another one. -/
theorem flatMap_inj_of_code {α β : Type} {f : α → List β} {P : α → Prop} (hne : ∀ a, f a ≠ [])
    (hcode : ∀ a b r s, P a → P b → f a ++ r = f b ++ s → a = b ∧ r = s) :
    ∀ {as bs : List α}, (∀ a ∈ as, P a) → (∀ b ∈ bs, P b) → as.flatMap f = bs.flatMap f → as = bs
  | [], [], _, _, _ => rfl
  | [], b :: bs, _, _, h => absurd (List.append_eq_nil_iff.mp h.symm).1 (hne b)
  | a :: as, [], _, _, h => absurd (List.append_eq_nil_iff.mp h).1 (hne a)
  | a :: as, b :: bs, ha, hb, h => by
    obtain ⟨rfl, hrest⟩ := hcode a b _ _ (ha a List.mem_cons_self) (hb b List.mem_cons_self) h
    rw [flatMap_inj_of_code hne hcode (fun a h => ha a (List.mem_cons_of_mem _ h))
      (fun b h => hb b (List.mem_cons_of_mem _ h)) hrest]

/-! ## 16-bit units -/

/-- The codes of characters leave a gap for the halves of pairs. -/
theorem toNat_cases (c : Char) : c.toNat < 0xd800 ∨ 0xdfff < c.toNat ∧ c.toNat < 0x110000 := c.valid

theorem units_ne_nil (c : Char) : units c ≠ [] := by
  unfold units
  split <;> exact List.cons_ne_nil _ _

theorem unit_lt {c : Char} {u : Nat} (hu : u ∈ units c) : u < 0x10000 := by
  have hc := toNat_cases c
  unfold units at hu
  split at hu
  · rw [List.mem_singleton] at hu
    omega
  · simp only [List.mem_cons, List.not_mem_nil, or_false] at hu
    omega

/-- No character in units begins with another one. -/
theorem units_code {c d : Char} {r s : List Nat} (h : units c ++ r = units d ++ s) :
    c = d ∧ r = s := by
  have hc := toNat_cases c
  have hd := toNat_cases d
  rw [← Char.toNat_inj]
  unfold units at h
  by_cases hcUnit : c.toNat < 0x10000 <;> by_cases hdUnit : d.toNat < 0x10000 <;>
    simp only [hcUnit, hdUnit, if_true, if_false, List.cons_append, List.nil_append,
      List.cons.injEq] at h
  · exact h
  -- the first half of a pair is in the gap
  · omega
  · omega
  · exact ⟨by omega, h.2.2⟩

theorem units_inj {s t : List Char} (h : s.flatMap units = t.flatMap units) : s = t :=
  flatMap_inj_of_code (P := fun _ => True) units_ne_nil (fun _ _ _ _ _ _ => units_code) (fun _ _ =>
    trivial)
    (fun _ _ => trivial) h

/-! ## Bytes of units -/

theorem highFirst_code {u v : Nat} {r s : List UInt8} (hu : u < 0x10000) (hv : v < 0x10000)
    (h : highFirst u ++ r = highFirst v ++ s) : u = v ∧ r = s := by
  simp only [highFirst, List.cons_append, List.nil_append, List.cons.injEq, ← UInt8.toNat_inj,
    UInt8.toNat_ofNat'] at h
  exact ⟨by omega, h.2.2⟩

theorem highFirst_inj {s t : List Char}
    (h : (s.flatMap units).flatMap highFirst = (t.flatMap units).flatMap highFirst) : s = t := by
  have hunits {cs : List Char} : ∀ u ∈ cs.flatMap units, u < 0x10000 := fun u hu => by
    obtain ⟨c, -, hc⟩ := List.mem_flatMap.mp hu
    exact unit_lt hc
  exact units_inj (flatMap_inj_of_code (fun _ => List.cons_ne_nil _ _) (fun _ _ _ _ =>
    highFirst_code) hunits hunits h)

/-- Every two bytes the other way round. -/
def swapPairs : List UInt8 → List UInt8
  | a :: b :: rest => b :: a :: swapPairs rest
  | rest => rest

theorem swapPairs_swapPairs : ∀ bytes, swapPairs (swapPairs bytes) = bytes
  | [] | [_] => rfl
  | a :: b :: rest => by rw [swapPairs, swapPairs, swapPairs_swapPairs rest]

theorem swapPairs_highFirst (us : List Nat) :
    swapPairs (us.flatMap highFirst) = us.flatMap lowFirst := by
  induction us with
  | nil => rfl
  | cons u us ih => exact congrArg (fun rest => UInt8.ofNat u :: UInt8.ofNat (u / 256) :: rest) ih

theorem length_highFirst (us : List Nat) : (us.flatMap highFirst).length = 2 * us.length := by
  induction us with
  | nil => rfl
  | cons u us ih =>
    rw [List.flatMap_cons, List.length_append, ih, List.length_cons]
    change 2 + 2 * us.length = _
    omega

/-- The low byte comes first where the high one does in the other order. -/
theorem encode_utf16LittleEndian (s : String) :
    encode utf16LittleEndian s = swapPairs (encode utf16BigEndian s) :=
  (swapPairs_highFirst _).symm

/-! ## Bytes of characters -/

theorem toList_loop (bytes : ByteArray) (i : Nat) (r : List UInt8) :
    ByteArray.toList.loop bytes i r = r.reverse ++ bytes.data.toList.drop i := by
  fun_induction ByteArray.toList.loop bytes i r with
  | case1 i r hi ih =>
    have hlt : i < bytes.data.toList.length := hi
    have hget : bytes.get! i = bytes.data.toList[i] := getElem!_pos bytes.data i hi
    rw [ih, List.drop_eq_getElem_cons hlt, List.reverse_cons, List.append_assoc, hget]
    rfl
  | case2 i r hi =>
    have hle : bytes.data.toList.length ≤ i := Nat.le_of_not_lt hi
    rw [List.drop_eq_nil_of_le hle, List.append_nil]

theorem utf8_inj {s t : String} (h : encode utf8 s = encode utf8 t) : s = t := by
  have htoList (bytes : ByteArray) : bytes.toList = bytes.data.toList := toList_loop bytes 0 []
  change s.toByteArray.toList = t.toByteArray.toList at h
  rw [htoList, htoList, Array.toList_inj] at h
  exact String.toByteArray_inj.mp (ByteArray.ext h)

/-- **The encodings of all characters lose nothing.** -/
theorem encode_injective {charset : Charset} (hall : charset.limit? = none) :
    Function.Injective charset.encode := by
  have hbig {s t : String} (h : encode utf16BigEndian s = encode utf16BigEndian t) : s = t :=
    String.toList_inj.mp (highFirst_inj h)
  intro s t h
  cases charset with
  | utf8 => exact utf8_inj h
  | utf16 => exact hbig (List.cons_inj_right _ |>.mp (List.cons_inj_right _ |>.mp h))
  | utf16BigEndian => exact hbig h
  | utf16LittleEndian =>
    rw [encode_utf16LittleEndian, encode_utf16LittleEndian] at h
    have hswapped := congrArg swapPairs h
    rw [swapPairs_swapPairs, swapPairs_swapPairs] at hswapped
    exact hbig hswapped
  | latin1 => cases hall
  | ascii => cases hall

/-- An encoding of single bytes keeps the characters it has and makes question marks of the
others. -/
theorem toNat_encode {charset : Charset} {limit : Nat} (hlimit : charset.limit? = some limit)
    (s : String) :
    (charset.encode s).map UInt8.toNat =
      s.toList.map fun c => if c.toNat < limit then c.toNat else '?'.toNat := by
  have hbyte {limit : Nat} (hle : limit ≤ 0x100) (c : Char) :
      (singleByte limit c).toNat = if c.toNat < limit then c.toNat else '?'.toNat := by
    unfold singleByte
    split
    · rw [UInt8.toNat_ofNat']
      omega
    · rfl
  cases charset with
  | latin1 =>
    cases hlimit
    exact (List.map_map ..).trans (List.map_congr_left fun c _ => hbyte (by decide) c)
  | ascii =>
    cases hlimit
    exact (List.map_map ..).trans (List.map_congr_left fun c _ => hbyte (by decide) c)
  | utf8 | utf16 | utf16BigEndian | utf16LittleEndian => cases hlimit

/-- Every name of an encoding stands for it. -/
theorem ofName?_names : ∀ p ∈ names, ofName? p.1 = some p.2 := by decide +kernel

end ScriptEngine.Charset
