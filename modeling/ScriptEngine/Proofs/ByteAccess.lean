import ScriptEngine.Evaluation.Machine
import ScriptEngine.Host.Dispatch
import ScriptEngine.Library.Objects
import ScriptEngine.Proofs.Charsets
import ScriptEngine.Proofs.Evolution
import ScriptEngine.Proofs.NumberOrder
import ScriptEngine.Proofs.Overloads
/-!
# Encoded text as an object

Encoded text is a host object of a class that every heap starts with and that nothing takes away.
Two of them are equal if their bytes are. The class has two methods of its own, and no script class
stands in front of them: one counts the bytes, the other takes a number, makes a 32-bit integer of
it and answers with the byte at that position. The integers that saturate on the way are outside of
any text with fewer bytes than these integers count.

* `Heap.HoldsBytes`, `Heap.Evolves.holdsBytes` : the class of encoded text is in its place, and
  stays there.
* `HostRun.toHost_int` : a number as a 32-bit integer.
* `Host.callMethod_size`, `Host.callMethod_get` : what the two methods do.
* **`Library.encodes_faithfully`** : what two texts in one encoding have to do with each other, and
  what is in an encoded text.

This is `getBytes` with the methods of the class of encoded text (`install_bytes`, `bytes_of`,
`encode`). The number of bytes is given as a 32-bit integer, so sizes are stated below `2 ^ 31`
bytes. Nothing in the language changes encoded text or turns it back into text.
-/

namespace ScriptEngine

/-! ## The class of encoded text -/

namespace Heap

variable {h h' : Heap}

/-- The class of encoded text is in its place. -/
structure HoldsBytes (h : Heap) : Prop where
  has : h.Has bytesClass
  table : h.hostClass bytesClass = initial.hostClass bytesClass

theorem holdsBytes_initial : initial.HoldsBytes := ⟨Nat.one_pos, rfl⟩

theorem HoldsBytes.of_keeps (hb : h.HoldsBytes) (hk : h.Keeps h') : h'.HoldsBytes :=
  ⟨hk.has _ hb.has, (hk.hostClass _ hb.has).trans hb.table⟩

theorem HoldsBytes.of_hostClasses (hb : h.HoldsBytes) (heq : h'.hostClasses = h.hostClasses) :
    h'.HoldsBytes where
  has := by
    rw [Has, heq]
    exact hb.has
  table := by
    rw [hostClass, heq]
    exact hb.table

theorem keeps_addHostClass (h : Heap) (c : HostClass) : h.Keeps (h.addHostClass c).2 where
  has cls hcls := (Nat.lt_succ_of_lt hcls).trans_eq (Array.size_push ..).symm
  hostClass cls hcls := by
    have hcls : cls.index < h.hostClasses.size := hcls
    simp only [hostClass, Heap.addHostClass, Array.getD_eq_getD_getElem?, Array.getElem?_push_lt
      hcls,
      Array.getElem?_eq_getElem hcls]
  scriptClass _ c hc := ⟨c.extension, hc⟩

/-- The class of encoded text stays in its place when the host adds classes of its own. -/
theorem HoldsBytes.addHostClass (hb : h.HoldsBytes) (c : HostClass) :
    (h.addHostClass c).2.HoldsBytes :=
  hb.of_keeps (keeps_addHostClass h c)

theorem Change.holdsBytes (hc : h.Change h') (hb : h.HoldsBytes) : h'.HoldsBytes := by
  cases hc with
  | extension script base => exact hb.of_keeps keeps_withExtension
  | _ => exact hb.of_hostClasses rfl

/-- **The class of encoded text stays in its place** whatever runs. -/
theorem Evolves.holdsBytes (he : h.Evolves h') (hb : h.HoldsBytes) : h'.HoldsBytes :=
  he.keeps Change.holdsBytes hb

/-! ## Encoded text in the heap -/

theorem concrete_bytes {id : HostId} {data : ByteArray} (hdata : h.hostObject id = .bytes data) :
    h.concrete id = id := by
  rw [concrete, innermost, hdata]

/-- Encoded texts are equal if their bytes are. -/
theorem hostEqual_bytes {x y : HostId} {p q : ByteArray} (hx : h.hostObject x = .bytes p)
    (hy : h.hostObject y = .bytes q) : h.hostEqual x y = (x == y || p == q) := by
  rw [hostEqual, hostEqualWithin, concrete_bytes hy, hx, hy]

end Heap

/-! ## Numbers as arguments -/

/-- Integers that 32 bits are enough for are what they are. -/
theorem Number.wrapInt32_of_lt {n : Nat} (h : n < 2 ^ 31) : wrapInt32 n = n := by
  rw [wrapInt32, Int.bmod_def]
  omega

section Arguments

variable {w : World} {v : Value} {x : Float}

theorem Heap.coerce_int (h : Heap) {d : HostData} {y : Float} (hd : d.asNumber? = some y) :
    h.coerce .int d = .ok (.int ((Number.exact y).toInt Number.minInt32 Number.maxInt32)) := by
  cases d <;> cases hd <;> rfl

/-- The shape of a number truncates as the number does. -/
theorem Heap.exists_naturalWithin (hv : v.asNumber? = some x) (levels : Nat) : ∃ d y,
    w.heap.naturalWithin (levels + 1) v = .ok d ∧ d.asNumber? = some y ∧
      (Number.exact y).toInt Number.minInt32 Number.maxInt32 =
        (Number.exact x).toInt Number.minInt32 Number.maxInt32 := by
  cases v with
  | number n =>
    obtain rfl := Option.some_inj.mp hv
    refine ⟨naturalNumber n, ?_⟩
    rcases HostData.naturalNumber_cases n with hdouble | ⟨i, hint | hlong, hin⟩
    · exact ⟨n, rfl, by rw [hdouble]; rfl, rfl⟩
    · exact ⟨_, rfl, by rw [hint]; rfl, Number.toInt_of_beq hin (by decide) (by decide) (by decide)⟩
    · exact ⟨_,
        rfl, by rw [hlong]; rfl, Number.toInt_of_beq hin (by decide) (by decide) (by decide)⟩
  | float f => exact ⟨.float f, x, rfl, hv, rfl⟩
  | _ => cases hv

/-- A number is fitted to the 32-bit integers by truncation. -/
theorem HostRun.toHost_int (hv : v.asNumber? = some x) :
    HostRun.toHost .int v w = .ok (.int ((Number.exact x).toInt Number.minInt32 Number.maxInt32))
      w := by
  obtain ⟨d, y, hd, hy, htoInt⟩ := Heap.exists_naturalWithin (w := w) hv w.heap.containers
  have hnatural : HostRun.natural v w = .ok d w := by
    rw [HostRun.natural, hd]
  have hcoerce : HostRun.heap (·.coerce .int d) w = .ok (w.heap.coerce .int d) w := rfl
  rw [HostRun.toHost, Run.bind_of_ok hnatural, Run.bind_of_ok hcoerce, Heap.coerce_int _ hy, htoInt]
  rfl

end Arguments

/-! ## The methods of encoded text -/

namespace Host

variable {w : World} {this : HostId} {data : ByteArray}

theorem bytesOf_eq (hdata : w.heap.hostObject this = .bytes data) :
    bytesOf this w = .ok data w := by
  have hread : HostRun.heap (fun h => h.hostObject (h.concrete this)) w = .ok (.bytes data) w :=
    Run.read_of_eq ((congrArg w.heap.hostObject (Heap.concrete_bytes hdata)).trans hdata)
  rw [bytesOf, Run.bind_of_ok hread]
  rfl

/-- The methods of a name of the class of encoded text. -/
theorem methodsNamed_bytes (hb : w.heap.HoldsBytes) (name : String) (arity : Nat) :
    w.heap.methodsNamed bytesClass name arity false = Heap.initial.methodsNamed bytesClass name
      arity false := by
  have hancestry {h : Heap} (hb : h.HoldsBytes) : h.ancestry bytesClass = [bytesClass] := by
    change h.ancestryFrom 1 bytesClass = _
    rw [Heap.ancestryFrom, hb.table]
    rfl
  rw [Heap.methodsNamed, Heap.methodsNamed, Heap.allMethods, Heap.allMethods, hancestry hb,
    hancestry Heap.holdsBytes_initial, List.flatMap_singleton, List.flatMap_singleton, hb.table]

/-- Encoded text is no script instance, so its class answers. -/
theorem callMethod_bytes (again : Calls) (hb : w.heap.HoldsBytes)
    (hdata : w.heap.hostObject this = .bytes data) (name : String) (args : List Value) :
    callMethod again this name args w = HostRun.toScript (invokeFirst again
      bytesClass name (Heap.initial.methodsNamed bytesClass name args.length false)
        (some this) args) w := by
  have hscript : scriptObject? w.heap this = none := by rw [scriptObject?, hdata]
  have hbaked : bakedAnswer? w.heap this name args = none := by
    unfold bakedAnswer? baked?
    rw [hscript]
    split <;> rfl
  have hmethod : scriptMethod? w.heap this name = none := by
    rw [scriptMethod?, hscript]
    rfl
  have hclass : w.heap.classOf this = bytesClass := by rw [Heap.classOf, hdata]
  rw [callMethod_eq, hbaked, hmethod, hclass, methodsNamed_bytes hb]

/-- A method that takes the arguments and stands alone is the one that runs. -/
theorem invokeFirst_single {again : Calls} {cls : HostClassId} {name : String} {m : HostMethod}
    {args : List Value} {fitted : List HostData}
    (hfitted : HostRun.toHostAll m.params args w = .ok fitted w) :
    invokeFirst again cls name [m] (some this) args w =
      (do Run.fromHost (← invokeMethod again m (some this) fitted) : HostRun Value) w := by
  have hattempt : (Run.attempt (HostRun.toHostAll m.params args) : HostRun _) w =
      .ok (.ok fitted) w := by
    unfold Run.attempt
    rw [hfitted]
  have hfit : firstFit HostMethod.params args [m] w = .ok (some (m, fitted)) w :=
    Run.bind_of_ok hattempt
  exact Run.bind_of_ok hfit

/-- The number of bytes, as a 32-bit integer. -/
theorem callMethod_size (again : Calls) (hb : w.heap.HoldsBytes)
    (hdata : w.heap.hostObject this = .bytes data) :
    callMethod again this "size" [] w =
      .ok (.number (Float.ofInt (Number.wrapInt32 data.size))) w := by
  have hbody : runBody again (some this) [] .byteCount w =
      .ok (.int (Number.wrapInt32 data.size)) w := Run.bind_of_ok (bytesOf_eq hdata)
  have hinvoke (m : HostMethod) (hm : m.body = .byteCount) (hreturns : m.returns = .int) :
      invokeMethod again m (some this) [] w = .ok (.int (Number.wrapInt32 data.size)) w := by
    rw [invokeMethod, hm, Run.bind_of_ok hbody, hreturns]
    rfl
  rw [callMethod_bytes again hb hdata]
  refine Run.mapError_of_ok ((invokeFirst_single rfl).trans ?_)
  exact Run.bind_of_ok (hinvoke _ rfl rfl)

/-- The body of `get` on an integer. -/
theorem runBody_byteAt (again : Calls) (hdata : w.heap.hostObject this = .bytes data) (i : Int) :
    runBody again (some this) [.int i] .byteAt w =
      match byteAt data i with
      | .ok d => .ok d w
      | .error e => .error e w := by
  refine (Run.bind_of_ok (bytesOf_eq hdata)).trans ?_
  change (match byteAt data i with
    | .ok d => (pure d : HostRun HostData)
    | .error e => HostRun.fail e) w = _
  cases byteAt data i <;> rfl

/-- A byte by its position: the number becomes a 32-bit integer first. -/
theorem callMethod_get (again : Calls) (hb : w.heap.HoldsBytes)
    (hdata : w.heap.hostObject this = .bytes data) {v : Value} {x : Float}
    (hv : v.asNumber? = some x) : callMethod again this "get" [v] w =
      match byteAt data ((Number.exact x).toInt Number.minInt32 Number.maxInt32) with
      | .ok d => HostRun.toScript (Run.fromHost d) w
      | .error e => .error e.toFault w := by
  have hfitted : HostRun.toHostAll [.int] [v] w = _ := Run.bind_of_ok (HostRun.toHost_int hv)
  have hbody := runBody_byteAt again hdata ((Number.exact x).toInt Number.minInt32 Number.maxInt32)
  rw [callMethod_bytes again hb hdata]
  refine (Run.mapError_congr_at _ (invokeFirst_single hfitted)).trans ?_
  cases hbyte : byteAt data ((Number.exact x).toInt Number.minInt32 Number.maxInt32) with
  | ok d =>
    rw [hbyte] at hbody
    exact Run.mapError_congr_at _ (Run.bind_of_ok (Run.bind_of_ok hbody))
  | error e =>
    rw [hbyte] at hbody
    exact Run.mapError_of_error (Run.bind_of_error (Run.bind_of_error hbody))

/-- There is a byte at every position inside. -/
theorem byteAt_inside {i : Int} (hlow : 0 ≤ i) (hhigh : i < data.size) :
    ∃ byte, data.data[i.toNat]? = some byte ∧ byteAt data i = .ok (.int byte.toNat) := by
  lift i to Nat using hlow
  have hi : i < data.size := by omega
  exact ⟨data[i], Array.getElem?_eq_getElem hi, dif_pos hi⟩

/-- There is none anywhere else. -/
theorem byteAt_outside {i : Int} (hout : ¬ (0 ≤ i ∧ i < data.size)) : byteAt data i =
    .error (.failed ("byte index " ++ toString i ++ " out of bounds for length " ++ toString
      data.size)) := by
  cases i with
  | ofNat n =>
    rw [Int.ofNat_eq_natCast] at hout
    exact dif_neg (by omega)
  | negSucc n => rfl

end Host

/-! ## The functions of the library -/

namespace Library

open Host

variable {w : World} {name : String} {charset : Charset}

/-- The state with one encoded text more. -/
def withBytes (w : World) (bytes : List UInt8) : World :=
  { w with heap := (w.heap.addHostObject (.bytes ⟨bytes.toArray⟩)).2 }

theorem getBytes_eq (hname : Charset.ofName? name = some charset) (s : String) (w : World) :
    getBytes [.string s, .string name] w =
      .ok (.host ⟨w.heap.hostObjects.size⟩) (withBytes w (charset.encode s)) := by
  have htext : Script.ofExcept (stringAt "getBytes" [.string s, .string name] 0) = pure s := rfl
  have hread : Script.ofExcept (optionalAt stringAt "getBytes" [.string s, .string name] 1
    "UTF-8") = pure name := rfl
  unfold getBytes
  rw [htext, pure_bind, hread, pure_bind, hname]
  rfl

theorem hostObject_withBytes (w : World) (bytes : List UInt8) :
    (withBytes w bytes).heap.hostObject ⟨w.heap.hostObjects.size⟩ = .bytes ⟨bytes.toArray⟩ :=
  Heap.hostObject_new _

/-- Whether two texts in an encoding are equal to a script. -/
def sameBytes (a b name : String) : Script Value := do
  let x ← getBytes [.string a, .string name]
  let y ← getBytes [.string b, .string name]
  Operators.binary .eq x y

theorem sameBytes_eq (hname : Charset.ofName? name = some charset) (a b : String) (w : World) :
    ∃ w',
    sameBytes a b name w = .ok (.bool (decide (charset.encode a = charset.encode b))) w' := by
  let w₁ := withBytes w (charset.encode a)
  let w₂ := withBytes w₁ (charset.encode b)
  have hsize : w₁.heap.hostObjects.size = w.heap.hostObjects.size + 1 := Array.size_push ..
  have hfirst : w₂.heap.hostObject ⟨w.heap.hostObjects.size⟩ =
      .bytes ⟨(charset.encode a).toArray⟩ := by
    have hbefore : w.heap.hostObjects.size < w₁.heap.hostObjects.size := hsize ▸ Nat.lt_succ_self _
    exact (Heap.hostObject_addHostObject _ hbefore).trans (hostObject_withBytes w _)
  have hsecond : w₂.heap.hostObject ⟨w₁.heap.hostObjects.size⟩ =
      .bytes ⟨(charset.encode b).toArray⟩ :=
    hostObject_withBytes w₁ _
  have hne : ((⟨w.heap.hostObjects.size⟩ : HostId) == ⟨w₁.heap.hostObjects.size⟩) = false := by
    rw [beq_eq_false_iff_ne, Ne, HostId.mk.injEq]
    omega
  have hequal : w₂.heap.equal (.host ⟨w.heap.hostObjects.size⟩) (.host ⟨w₁.heap.hostObjects.size⟩) =
      decide (charset.encode a = charset.encode b) := by
    change w₂.heap.hostEqual _ _ = _
    rw [Heap.hostEqual_bytes hfirst hsecond, hne, Bool.false_or]
    change ((charset.encode a).toArray == (charset.encode b).toArray) = _
    rw [Bool.eq_iff_iff, beq_iff_eq, decide_eq_true_iff]
    exact ⟨List.toArray_inj, congrArg List.toArray⟩
  refine ⟨w₂, ?_⟩
  rw [sameBytes, Run.bind_of_ok (getBytes_eq hname a w), Run.bind_of_ok (getBytes_eq hname b w₁),
    ← hequal]
  rfl

theorem bytesSize_eq {id : HostId} {data : ByteArray} (hdata : w.heap.hostObject id = .bytes data) :
    bytesSize [.host id] w = .ok (.number (Float.ofNat data.size)) w := by
  have hbytes : bytes? w.heap (.host id) = some data := by
    simp only [bytes?, Heap.concrete_bytes hdata, hdata]
  have hread : Script.heap (bytes? · (.host id)) w = .ok (some data) w := Run.read_of_eq hbytes
  exact Run.bind_of_ok hread

/-- How encoded text behaves in a state. -/
structure EncodesFaithfully (w : World) : Prop where
  /-- Every name stands for its encoding. -/
  named : ∀ p ∈ Charset.names, Charset.ofName? p.1 = some p.2
  /-- A text is encoded into a new object with the bytes of the encoding, whose size they are. The
  state after it is such a state again. -/
  encoded {name : String} {charset : Charset} (hname : Charset.ofName? name = some charset)
      (s : String) : ∃ id w',
    getBytes [.string s, .string name] w = .ok (.host id) w' ∧
      w'.heap.hostObject id = .bytes ⟨(charset.encode s).toArray⟩ ∧
      bytesSize [.host id] w' = .ok (.number (Float.ofNat (charset.encode s).length)) w' ∧
      w'.heap.HoldsBytes
  /-- In an encoding of all characters, two texts are equal exactly if they are the same. -/
  equal_iff {name : String} {charset : Charset} (hname : Charset.ofName? name = some charset)
      (hall : charset.limit? = none) (a b : String) :
      ∃ w', sameBytes a b name w = .ok (.bool (decide (a = b))) w'
  /-- UTF-16 is UTF-16BE after a mark. -/
  marked (s : String) : Charset.utf16.encode s = 0xfe :: 0xff :: Charset.utf16BigEndian.encode s
  /-- UTF-16LE is UTF-16BE with the bytes of every pair the other way round, and all bytes are in
  pairs. -/
  swapped (s : String) :
      Charset.utf16LittleEndian.encode s = Charset.swapPairs (Charset.utf16BigEndian.encode s) ∧
    2 ∣ (Charset.utf16BigEndian.encode s).length
  /-- An encoding of single bytes has a byte for each character: its code, or that of a question
  mark. -/
  single {charset : Charset} {limit : Nat} (hlimit : charset.limit? = some limit) (s : String) :
    (charset.encode s).length = s.length ∧ (charset.encode s).map UInt8.toNat =
      s.toList.map fun c => if c.toNat < limit then c.toNat else '?'.toNat
  /-- Encoded text says how many bytes it has, if 32-bit integers count so far. -/
  size (again : Calls) {id : HostId} {data : ByteArray} (hdata : w.heap.hostObject id = .bytes data)
    (hsize : data.size < 2 ^ 31) :
    callMethod again id "size" [] w = .ok (.number (Float.ofNat data.size)) w
  /-- It answers with the byte at a position inside. A number that is not whole counts as what it
  truncates to. -/
  get_inside (again : Calls) {id : HostId} {data : ByteArray}
      (hdata : w.heap.hostObject id = .bytes data) (hsize : data.size < 2 ^ 31) {v : Value}
      {x : Float} {i : Int} (hv : v.asNumber? = some x) (hi : (Number.exact x).truncate? = some i)
      (hlow : 0 ≤ i) (hhigh : i < data.size) : ∃ byte,
    data.data[i.toNat]? = some byte ∧ byte.toNat ≤ 255 ∧
      callMethod again id "get" [v] w = .ok (.number (Float.ofNat byte.toNat)) w
  /-- It fails for every position outside. -/
  get_outside (again : Calls) {id : HostId} {data : ByteArray}
      (hdata : w.heap.hostObject id = .bytes data) (hsize : data.size < 2 ^ 31) {v : Value}
      {x : Float} {i : Int} (hv : v.asNumber? = some x) (hi : (Number.exact x).truncate? = some i)
      (hout : ¬ (0 ≤ i ∧ i < data.size)) : ∃ fault,
    callMethod again id "get" [v] w = .error fault w

/-- **Encoded text is faithful** wherever the class of encoded text is in its place. -/
theorem encodes_faithfully (hb : w.heap.HoldsBytes) : EncodesFaithfully w where
  named := Charset.ofName?_names
  encoded {_ charset} hname s := ⟨_, _, getBytes_eq hname s w, hostObject_withBytes w _,
    bytesSize_eq (hostObject_withBytes w (charset.encode s)), hb.of_hostClasses rfl⟩
  equal_iff hname hall a b := by
    obtain ⟨w', h⟩ := sameBytes_eq hname a b w
    simp only [(Charset.encode_injective hall).eq_iff] at h
    exact ⟨w', h⟩
  marked _ := rfl
  swapped s := ⟨Charset.encode_utf16LittleEndian s, Charset.length_highFirst _ ▸ Nat.dvd_mul_right 2
    _⟩
  single hlimit s := by
    have hcodes := Charset.toNat_encode hlimit s
    have hlength := congrArg List.length hcodes
    rw [List.length_map, List.length_map, String.length_toList] at hlength
    exact ⟨hlength, hcodes⟩
  size again id data hdata hsize := by
    have hcount : Number.wrapInt32 data.size = data.size := Number.wrapInt32_of_lt hsize
    rw [callMethod_size again hb hdata, hcount]
    rfl
  get_inside := by
    intro again id data hdata hsize v x i hv hi hlow hhigh
    have hclamped : (Number.exact x).toInt Number.minInt32 Number.maxInt32 = i := by
      rw [Number.Exact.toInt_of_truncate? hi, Number.minInt32, Number.maxInt32]
      omega
    obtain ⟨byte, hbyte, hat⟩ := byteAt_inside hlow hhigh
    refine ⟨byte, hbyte, Nat.le_of_lt_succ byte.toNat_lt, ?_⟩
    rw [callMethod_get again hb hdata hv, hclamped, hat]
    rfl
  get_outside := by
    intro again id data hdata hsize v x i hv hi hout
    have hclamped : ¬ (0 ≤ (Number.exact x).toInt Number.minInt32 Number.maxInt32 ∧
        (Number.exact x).toInt Number.minInt32 Number.maxInt32 < data.size) := by
      rw [Number.Exact.toInt_of_truncate? hi, Number.minInt32, Number.maxInt32]
      omega
    rw [callMethod_get again hb hdata hv, byteAt_outside hclamped]
    exact ⟨_, rfl⟩

/-- A text of two characters, of which the second one is beyond 7 bits. -/
def accented : String := "né"

/-- The state after it was encoded on a new engine. -/
def encodedPair : World := withBytes (.initial .default 0 0) (Charset.latin1.encode accented)

/-- Two bytes are there then: the object says so, and the second one is the code of its
character. -/
theorem encodes_faithfully_pair : ∃ id data, encodedPair.heap.HoldsBytes ∧
    EncodesFaithfully encodedPair ∧ encodedPair.heap.hostObject id = .bytes data ∧
    getBytes [.string accented, .string "ISO-8859-1"] (.initial .default 0 0) =
      .ok (.host id) encodedPair ∧
    callMethod Evaluation.calls id "size" [] encodedPair =
      .ok (.number (Float.ofNat 2)) encodedPair ∧
    callMethod Evaluation.calls id "get" [.number 1.0] encodedPair =
      .ok (.number (Float.ofNat 233)) encodedPair ∧
    ∃ fault, callMethod Evaluation.calls id "get" [.number 2.0] encodedPair =
      .error fault encodedPair := by
  have hholds : encodedPair.heap.HoldsBytes := Heap.holdsBytes_initial.of_hostClasses rfl
  have hfaithful := encodes_faithfully hholds
  have hdata := hostObject_withBytes (.initial .default 0 0) (Charset.latin1.encode accented)
  obtain ⟨byte, hbyte, -, hget⟩ := hfaithful.get_inside Evaluation.calls hdata (by decide)
    (v := .number 1.0) rfl (i := 1) (by decide) (by decide) (by decide)
  obtain rfl : byte = 233 := Option.some.inj (hbyte.symm.trans (by decide))
  exact ⟨_, _, hholds, hfaithful, hdata, getBytes_eq (by decide) accented _,
    hfaithful.size Evaluation.calls hdata (by decide), hget,
    hfaithful.get_outside Evaluation.calls hdata (by decide) (v := .number 2.0) rfl (i := 2)
      (by decide) (by decide)⟩

end Library

end ScriptEngine
