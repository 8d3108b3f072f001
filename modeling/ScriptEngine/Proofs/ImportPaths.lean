import Mathlib.Data.List.Induction
import Mathlib.Data.String.Basic
import ScriptEngine.Engine
import ScriptEngine.Proofs.Steps
/-!
# What an import path names

A path names the class registered there last. Where nothing is registered there, its longest
registered beginning names a class, and the names after it are looked for among its nested classes,
then among theirs. A script that has the class of that beginning at hand comes to the same class by
reading these names as properties, because a nested class answers before a static field or a static
method.

* `splitOn_dot`, `splitOn_intercalate_dot` : taking a path apart at its dots and putting it together
  again.
* `eq_append_dot_iff` : the proper beginnings of a path, counted in names.
* `lookup_registered` : the registry that a sequence of registrations builds.
* `longestBeginning_cases` : what the search from the longest beginning down comes to.
* `PathNames` : what a path names, as it is to be; `PathNames.unique`, `pathNames_resolve` : the
  search comes to that and to nothing else.
* `resolve_register` : a registration changes what its own path names and what the paths that go on
  from it name.
* **`imports_resolve`** : all of this, and the reads of a script.

This is `register` and `resolve` of the registry, and `get_static` for the reads of a script. A
beginning that is registered but leads nowhere does not make the search go on with a shorter one.
-/

namespace ScriptEngine

open String (utf8Len)

/-! ## Names and dots -/

/-- The loop that takes a text apart, with `l` done and `m` read since the last dot. -/
theorem splitOnAux_dot (l m r : List Char) (acc : List String) :
    String.splitOnAux (String.ofList (l ++ m ++ r)) "." ⟨utf8Len l⟩ ⟨utf8Len l + utf8Len m⟩ 0 acc =
      acc.reverse ++ (List.splitOnPPrepend (· == '.') r m.reverse).map String.ofList := by
  induction r generalizing l m acc with
  | nil =>
    have hend : String.Pos.Raw.atEnd (String.ofList (l ++ m ++ [])) ⟨utf8Len l + utf8Len m⟩ =
        true := by
      simp [-String.ofList_append]
    rw [String.splitOnAux, if_pos hend, String.extract_of_valid l m []]
    simp
  | cons c r ih =>
    have hsize := Char.utf8Size_pos c
    have hend : ¬String.Pos.Raw.atEnd (String.ofList (l ++ m ++ c :: r)) ⟨utf8Len l + utf8Len m⟩ =
        true := by
      simp [-String.ofList_append]
      omega
    have hget : String.Pos.Raw.get (String.ofList (l ++ m ++ c :: r)) ⟨utf8Len l + utf8Len m⟩ =
        c := by
      simpa using String.get_of_valid (l ++ m) (c :: r)
    have hnext : String.Pos.Raw.next (String.ofList (l ++ m ++ c :: r)) ⟨utf8Len l + utf8Len m⟩ =
        ⟨utf8Len l + utf8Len m + c.utf8Size⟩ := by
      simpa using String.next_of_valid (l ++ m) c r
    have hdot : String.Pos.Raw.get "." 0 = '.' := by decide
    rw [String.splitOnAux, if_neg hend, hget, hdot]
    by_cases hc : c = '.'
    · subst hc
      have hone : String.Pos.Raw.next "." 0 = ⟨1⟩ := by decide
      have hdone : String.Pos.Raw.atEnd "." ⟨1⟩ = true := by decide
      have hback : (String.Pos.Raw.mk (utf8Len l + utf8Len m + Char.utf8Size '.')).unoffsetBy ⟨1⟩ =
          ⟨utf8Len l + utf8Len m⟩ := by
        simp [String.Pos.Raw.ext_iff, show Char.utf8Size '.' = 1 from rfl]
      simp only [beq_self_eq_true, if_true, hone, hdone, hnext, hback]
      rw [String.extract_of_valid l m ('.' :: r)]
      have hrest := ih (l ++ m ++ ['.']) [] (String.ofList m :: acc)
      simpa [List.splitOnPPrepend_cons_eq_if, Nat.add_assoc] using hrest
    · have hback : (String.Pos.Raw.mk (utf8Len l + utf8Len m)).unoffsetBy 0 =
          ⟨utf8Len l + utf8Len m⟩ := by simp
      simp only [beq_iff_eq, hc, if_false, hback, hnext]
      have hrest := ih l (m ++ [c]) acc
      simpa [List.splitOnPPrepend_cons_eq_if, hc, Nat.add_assoc] using hrest

/-- A text is taken apart at its dots as the list of its characters is. -/
theorem splitOn_dot (s : String) : s.splitOn "." = (s.toList.splitOn '.').map String.ofList := by
  have h := splitOnAux_dot [] [] s.toList []
  simpa [String.splitOn, List.splitOn] using h

theorem splitOn_dot_ne_nil (s : String) : s.splitOn "." ≠ [] := by
  simp [splitOn_dot]

theorem splitOn_append_dot (p rest : String) :
    (p ++ "." ++ rest).splitOn "." = p.splitOn "." ++ rest.splitOn "." := by
  have h := List.splitOn_append_cons_self (a := '.') p.toList rest.toList
  simp [splitOn_dot, h]

theorem intercalate_splitOn_dot (s : String) : String.intercalate "." (s.splitOn ".") = s := by
  rw [← String.toList_inj, String.toList_intercalate, splitOn_dot, List.map_map]
  have hid : String.toList ∘ String.ofList = id := by
    funext l
    simp
  rw [hid, List.map_id]
  exact List.intercalate_splitOn '.'

/-- What stands between two dots has no dot in it. -/
theorem notMem_of_mem_splitOn {a : Char} : ∀ {xs l : List Char}, l ∈ xs.splitOn a → a ∉ l
  | [], l, hl => by
    simp at hl
    simp [hl]
  | x :: xs, l, hl => by
    rw [List.splitOn_cons_eq_if_modifyHead] at hl
    by_cases hx : x = a
    · rw [if_pos (by simpa using hx)] at hl
      rcases List.mem_cons.mp hl with rfl | hrest
      · simp
      · exact notMem_of_mem_splitOn hrest
    · rw [if_neg (by simpa using hx)] at hl
      obtain ⟨first, others, hsplit⟩ := List.exists_cons_of_ne_nil (List.splitOn_ne_nil a xs)
      rw [hsplit, List.modifyHead_cons] at hl
      rcases List.mem_cons.mp hl with rfl | hrest
      · have hfirst : a ∉ first := notMem_of_mem_splitOn (hsplit ▸ List.mem_cons_self)
        simp [hfirst, Ne.symm hx]
      · exact notMem_of_mem_splitOn (hsplit ▸ List.mem_cons_of_mem _ hrest)

/-- Names without dots that are put together come apart again. -/
theorem splitOn_intercalate_dot {names : List String} (hne : names ≠ [])
    (hnames : ∀ name ∈ names, '.' ∉ name.toList) :
    (String.intercalate "." names).splitOn "." = names := by
  have hapart : (['.'].intercalate (names.map String.toList)).splitOn '.' =
      names.map String.toList :=
    List.splitOn_intercalate '.' (by simpa using hnames) (by simpa using hne)
  have hid : String.ofList ∘ String.toList = id := by
    funext s
    simp
  rw [splitOn_dot, String.toList_intercalate]
  have hdot : ".".toList = ['.'] := rfl
  rw [hdot, hapart, List.map_map, hid, List.map_id]

theorem notMem_of_mem_splitOn_dot {s name : String} (hname : name ∈ s.splitOn ".") :
    '.' ∉ name.toList := by
  rw [splitOn_dot] at hname
  obtain ⟨l, hl, rfl⟩ := List.mem_map.mp hname
  simpa using notMem_of_mem_splitOn hl

/-- A path goes on from a shorter one by a dot just if that one is made of the first of its names,
and what comes after the dot of the others. -/
theorem eq_append_dot_iff {path p rest : String} :
    path = p ++ "." ++ rest ↔
      ∃ k, 0 < k ∧ k < (path.splitOn ".").length ∧
        p = String.intercalate "." ((path.splitOn ".").take k) ∧
        rest = String.intercalate "." ((path.splitOn ".").drop k) := by
  constructor
  · intro hpath
    have hp := List.length_pos_iff.mpr (splitOn_dot_ne_nil p)
    have hrest := List.length_pos_iff.mpr (splitOn_dot_ne_nil rest)
    refine ⟨(p.splitOn ".").length, hp, ?_, ?_, ?_⟩
    · rw [hpath, splitOn_append_dot, List.length_append]
      omega
    · rw [hpath, splitOn_append_dot, List.take_left, intercalate_splitOn_dot]
    · rw [hpath, splitOn_append_dot, List.drop_left, intercalate_splitOn_dot]
  · rintro ⟨k, hpos, hlt, rfl, rfl⟩
    have htake : (path.splitOn ".").take k ≠ [] := by
      simp [Nat.ne_of_gt hpos, splitOn_dot_ne_nil]
    have hdrop : (path.splitOn ".").drop k ≠ [] := by
      simpa using hlt
    rw [← String.intercalate_append_of_ne_nil htake hdrop, List.take_append_drop,
      intercalate_splitOn_dot]

/-- A beginning of fewer names is shorter. -/
theorem length_take_lt {names : List String} {j k : Nat} (hpos : 0 < j) (hjk : j < k)
    (hk : k ≤ names.length) :
    (String.intercalate "." (names.take j)).length <
      (String.intercalate "." (names.take k)).length := by
  have hsplit : names.take k = names.take j ++ (names.take k).drop j := by
    have h := (List.take_append_drop j (names.take k)).symm
    rwa [List.take_take, Nat.min_eq_left (Nat.le_of_lt hjk)] at h
  have htake : names.take j ≠ [] := by
    intro h
    have hnil := congrArg List.length h
    rw [List.length_take, List.length_nil] at hnil
    omega
  have hdrop : (names.take k).drop j ≠ [] := by
    intro h
    have hnil := List.drop_eq_nil_iff.mp h
    rw [List.length_take] at hnil
    omega
  rw [hsplit, String.intercalate_append_of_ne_nil htake hdrop]
  simp only [String.length_append]
  have hdot : ".".length = 1 := rfl
  omega

/-! ## Registrations -/

/-- The registry that some registrations build, the first of them made first. -/
def registered (registrations : List (String × HostClassId)) : List (String × HostClassId) :=
  registrations.foldl (fun registry (path, cls) => register path cls registry) []

/-- The class that was last registered at a path. -/
def lastRegistered? (registrations : List (String × HostClassId)) (path : String) :
    Option HostClassId :=
  registrations.reverse.lookup path

theorem lookup_filter_ne {path q : String} (hq : q ≠ path) :
    ∀ registry : List (String × HostClassId),
    (registry.filter (·.1 != path)).lookup q = registry.lookup q
  | [] => rfl
  | (first, cls) :: rest => by
    have hrest := lookup_filter_ne hq rest
    by_cases hfirst : first = path
    · subst hfirst
      simp [List.lookup_cons, hrest, beq_false_of_ne hq]
    · by_cases hqf : q = first
      · simp [hfirst, hqf]
      · simp [hfirst, List.lookup_cons, beq_false_of_ne hqf, hrest]

/-- A class is found under the path it is registered at, and the others where they were. -/
theorem lookup_register (path q : String) (cls : HostClassId)
    (registry : List (String × HostClassId)) :
    (register path cls registry).lookup q = if q = path then some cls else registry.lookup q := by
  unfold register
  by_cases hq : q = path
  · simp [hq]
  · simp [List.lookup_cons, beq_false_of_ne hq, hq, lookup_filter_ne hq]

/-- The registry holds what was last registered at each path. -/
theorem lookup_registered (registrations : List (String × HostClassId)) (path : String) :
    (registered registrations).lookup path = lastRegistered? registrations path := by
  unfold registered lastRegistered?
  induction registrations using List.reverseRecOn with
  | nil => rfl
  | append_singleton earlier last ih =>
    obtain ⟨p, cls⟩ := last
    rw [List.foldl_append, List.reverse_append]
    simp only [List.foldl_cons, List.foldl_nil, List.reverse_singleton, List.singleton_append]
    rw [lookup_register, ih, List.lookup_cons]
    by_cases hp : path = p
    · simp [hp]
    · simp [beq_false_of_ne hp, hp]

/-! ## The search from the longest beginning down -/

variable {h : Heap} {registry : List (String × HostClassId)} {segments : List String}

/-- Among the beginnings of no more than `n` names either none is registered, or the search ends
with the longest that is. -/
theorem longestBeginning_cases (registry : List (String × HostClassId)) (segments : List String) :
    ∀ n, (longestBeginning registry segments n = none ∧
        ∀ j, 0 < j → j ≤ n → registry.lookup (String.intercalate "." (segments.take j)) = none) ∨
      ∃ k cls, 0 < k ∧ k ≤ n ∧ longestBeginning registry segments n = some (cls, segments.drop k) ∧
        registry.lookup (String.intercalate "." (segments.take k)) = some cls ∧
        ∀ j, k < j → j ≤ n → registry.lookup (String.intercalate "." (segments.take j)) = none
  | 0 => .inl ⟨rfl, fun j hpos hle => by omega⟩
  | n + 1 => by
    unfold longestBeginning
    cases hhere : registry.lookup (String.intercalate "." (segments.take (n + 1))) with
    | some cls =>
      refine .inr ⟨n + 1, cls, Nat.succ_pos n, Nat.le_refl _, rfl, hhere, ?_⟩
      intro j hlt hle
      omega
    | none =>
      simp only
      rcases longestBeginning_cases registry segments n with ⟨hnone, hno⟩ | ⟨k, cls, hpos, hle,
        hsome, hk, hno⟩
      · refine .inl ⟨hnone, ?_⟩
        intro j hpos hle
        rcases Nat.lt_or_eq_of_le hle with hlt | rfl
        · exact hno j hpos (Nat.le_of_lt_succ hlt)
        · exact hhere
      · refine .inr ⟨k, cls, hpos, Nat.le_succ_of_le hle, hsome, hk, ?_⟩
        intro j hlt hle
        rcases Nat.lt_or_eq_of_le hle with hlt' | rfl
        · exact hno j hlt (Nat.le_of_lt_succ hlt')
        · exact hhere

/-- The search depends on no more of the registry than on what it holds at the beginnings. -/
theorem longestBeginning_congr {other : List (String × HostClassId)} : ∀ n,
    (∀ j, 0 < j → j ≤ n → registry.lookup (String.intercalate "." (segments.take j)) =
      other.lookup (String.intercalate "." (segments.take j))) →
    longestBeginning registry segments n = longestBeginning other segments n
  | 0, _ => rfl
  | n + 1, hsame => by
    have hrest := longestBeginning_congr n fun j hpos hle => hsame j hpos (Nat.le_succ_of_le hle)
    simp only [longestBeginning, hsame (n + 1) (Nat.succ_pos n) (Nat.le_refl _), hrest]

/-! ## What a path names -/

/-- What a path names by some registrations: the class last registered at it; else what is nested at
its end in the class last registered at its longest proper beginning; else nothing. -/
inductive PathNames (h : Heap) (registrations : List (String × HostClassId)) (path : String) :
    Option HostClassId → Prop
  | here {cls : HostClassId} (hcls : lastRegistered? registrations path = some cls) :
    PathNames h registrations path (some cls)
  | nested {p rest : String} {cls : HostClassId} (hnot : lastRegistered? registrations path = none)
    (hpath : path = p ++ "." ++ rest) (hcls : lastRegistered? registrations p = some cls)
    (hlongest : ∀ p' rest', path = p' ++ "." ++ rest' → p.length < p'.length →
      lastRegistered? registrations p' = none) :
    PathNames h registrations path (descend h cls (rest.splitOn "."))
  | nothing (hnot : lastRegistered? registrations path = none)
    (hno : ∀ p rest, path = p ++ "." ++ rest → lastRegistered? registrations p = none) :
    PathNames h registrations path none

variable {registrations : List (String × HostClassId)} {path : String}

/-- A path has no two beginnings of one length. -/
theorem append_dot_inj {p p' rest rest' : String} (heq : p ++ "." ++ rest = p' ++ "." ++ rest')
    (hlength : p.length = p'.length) : p = p' ∧ rest = rest' := by
  have hlists := congrArg String.toList heq
  simp only [String.toList_append, List.append_assoc] at hlists
  obtain ⟨hp, hrest⟩ := List.append_inj hlists (by simpa only [String.length_toList] using hlength)
  refine ⟨String.toList_inj.mp hp, String.toList_inj.mp ?_⟩
  simpa using hrest

/-- A path names one thing. -/
theorem PathNames.unique {found found' : Option HostClassId}
    (hfound : PathNames h registrations path found)
    (hfound' : PathNames h registrations path found') : found = found' := by
  cases hfound with
  | here hcls =>
    cases hfound' with
    | here hcls' => rw [← hcls, hcls']
    | nested hnot' => simp [hcls] at hnot'
    | nothing hnot' => simp [hcls] at hnot'
  | @nested p rest cls hnot hpath hcls hlongest =>
    cases hfound' with
    | here hcls' => simp [hcls'] at hnot
    | @nested p' rest' cls' _ hpath' hcls' hlongest' =>
      have hlength : p.length = p'.length := by
        apply Nat.le_antisymm
        · refine Nat.le_of_not_lt fun hlt => ?_
          simp [hlongest' p rest hpath hlt] at hcls
        · refine Nat.le_of_not_lt fun hlt => ?_
          simp [hlongest p' rest' hpath' hlt] at hcls'
      obtain ⟨rfl, rfl⟩ := append_dot_inj (hpath.symm.trans hpath') hlength
      rw [hcls] at hcls'
      cases hcls'
      rfl
    | nothing _ hno => simp [hno p rest hpath] at hcls
  | nothing hnot hno =>
    cases hfound' with
    | here hcls' => simp [hcls'] at hnot
    | nested _ hpath' hcls' => simp [hno _ _ hpath'] at hcls'
    | nothing => rfl

/-- The search comes to what the path names. -/
theorem pathNames_resolve (h : Heap) (registrations : List (String × HostClassId)) (path : String) :
    PathNames h registrations path (resolve h (registered registrations) path) := by
  have hwhole : (path.splitOn ".").take (path.splitOn ".").length = path.splitOn "." :=
    List.take_length
  have hpos := List.length_pos_iff.mpr (splitOn_dot_ne_nil path)
  have hcases := longestBeginning_cases (registered registrations) (path.splitOn ".")
    (path.splitOn ".").length
  simp only [lookup_registered] at hcases
  rcases hcases with ⟨hnone, hno⟩ | ⟨k, cls, hk, hle, hsome, hcls, hno⟩
  · have hresolve : resolve h (registered registrations) path = none := by
      simp [resolve, hnone]
    rw [hresolve]
    refine .nothing ?_ ?_
    · have hlast := hno _ hpos (Nat.le_refl _)
      rwa [hwhole, intercalate_splitOn_dot] at hlast
    · intro p rest hpath
      obtain ⟨j, hj, hlt, rfl, -⟩ := eq_append_dot_iff.mp hpath
      exact hno j hj (Nat.le_of_lt hlt)
  · have hresolve : resolve h (registered registrations) path =
        descend h cls ((path.splitOn ".").drop k) := by
      simp [resolve, hsome]
    rw [hresolve]
    rcases Nat.lt_or_eq_of_le hle with hlt | heq
    · have hdrop : (path.splitOn ".").drop k ≠ [] := by
        simpa using hlt
      have happart := splitOn_intercalate_dot hdrop fun name hname =>
        notMem_of_mem_splitOn_dot (List.mem_of_mem_drop hname)
      rw [← happart]
      refine .nested ?_ (eq_append_dot_iff.mpr ⟨k, hk, hlt, rfl, rfl⟩) hcls ?_
      · have hlast := hno _ hlt (Nat.le_refl _)
        rwa [hwhole, intercalate_splitOn_dot] at hlast
      · intro p' rest' hpath' hlonger
        obtain ⟨j, hj, hlt', rfl, -⟩ := eq_append_dot_iff.mp hpath'
        refine hno j ?_ (Nat.le_of_lt hlt')
        refine Nat.lt_of_not_le fun hjk => ?_
        rcases Nat.lt_or_eq_of_le hjk with hjk | rfl
        · have := length_take_lt hj hjk hle
          omega
        · omega
    · subst heq
      rw [hwhole, intercalate_splitOn_dot] at hcls
      rw [List.drop_length]
      exact .here hcls

/-- A registration changes neither what another path names nor what goes on from another path. -/
theorem resolve_register {p q : String} (cls : HostClassId) (registry : List (String × HostClassId))
    (hne : q ≠ p) (hnot : ∀ rest, q ≠ p ++ "." ++ rest) :
    resolve h (register p cls registry) q = resolve h registry q := by
  have hsame : longestBeginning (register p cls registry) (q.splitOn ".") (q.splitOn ".").length =
      longestBeginning registry (q.splitOn ".") (q.splitOn ".").length := by
    apply longestBeginning_congr
    intro j hpos hle
    rw [lookup_register, if_neg]
    rintro rfl
    rcases Nat.lt_or_eq_of_le hle with hlt | rfl
    · exact hnot _ (eq_append_dot_iff.mpr ⟨j, hpos, hlt, rfl, rfl⟩)
    · rw [List.take_length, intercalate_splitOn_dot] at hne
      exact hne rfl
  unfold resolve
  simp only [hsame]

/-! ## Reads of a script -/

/-- The expression that reads names one after another off the value of an expression. -/
def readEach (span : Span) (e : Expr) : List String → Expr
  | [] => e
  | name :: names => readEach span (.get e name span) names

/-- On the way from a class along some names a static field answers where there is no nested
class. -/
def FieldAnswers (h : Heap) (cls : HostClassId) (names : List String) : Prop :=
  ∃ before name after c field, names = before ++ name :: after ∧ descend h cls before = some c ∧
    h.findNested? c name = none ∧ h.findField? c name true = some field

theorem descend_cons (h : Heap) (cls : HostClassId) (name : String) (names : List String) :
    descend h cls (name :: names) = (h.findNested? cls name).bind (descend h · names) := by
  simp [descend]

/-- A static field that answers later on the way answers on the way. -/
theorem FieldAnswers.cons {cls c : HostClassId} {name : String} {names : List String}
    (hname : h.findNested? cls name = some c) (hrest : FieldAnswers h c names) :
    FieldAnswers h cls (name :: names) := by
  obtain ⟨before, later, after, c', field, rfl, hbefore, hnested, hfield⟩ := hrest
  refine ⟨name :: before, later, after, c', field, rfl, ?_, hnested, hfield⟩
  rw [descend_cons, hname]
  exact hbefore

variable {cls c : HostClassId} {name : String} {span : Span} {e : Expr} {n : Nat} {w w' w'' : World}

/-- A nested class answers first. -/
theorem getStatic_nested (hname : w.heap.findNested? cls name = some c) :
    Host.getStatic cls name w = .ok (.hostClass c) w := by
  simp [Host.getStatic, Script.heap, Run.read, Bind.bind, hname, Pure.pure]

/-- Without a nested class and a static field there is a static method or null. -/
theorem getStatic_missing (hname : w.heap.findNested? cls name = none)
    (hfield : w.heap.findField? cls name true = none) :
    Host.getStatic cls name w =
      .ok (if w.heap.hasMethod cls name true then .hostMethod (.static cls) name else .null) w := by
  simp [Host.getStatic, Script.heap, Run.read, Bind.bind, hname, hfield, Pure.pure]

/-- The read of a property comes after the value it is read off. -/
theorem evaluate_get (n : Nat) (e : Expr) (name : String) (span : Span) :
    (Evaluation.machine (n + 1)).evaluate (.get e name span) =
      Script.placedAt span ((Evaluation.machine n).evaluate e >>= fun v =>
        Evaluation.readProperty (Evaluation.machine n) false v name) := rfl

/-- Names are read off a value only. -/
theorem ok_of_readEach : ∀ {names : List String} {e : Expr} {n : Nat} {v : Value},
    (Evaluation.machine (n + names.length)).evaluate (readEach span e names) w = .ok v w' →
    ∃ v₁ w₁, (Evaluation.machine n).evaluate e w = .ok v₁ w₁
  | [], _, _, v, hread => ⟨v, w', hread⟩
  | name :: names, e, n, v, hread => by
    have hlength : n + (name :: names).length = n + 1 + names.length := by
      simp only [List.length_cons]
      omega
    rw [hlength] at hread
    obtain ⟨v₁, w₁, hget⟩ := ok_of_readEach hread
    rw [evaluate_get] at hget
    obtain ⟨v₂, w₂, he, -⟩ := Run.ok_of_bind (Run.ok_of_mapError hget)
    exact ⟨v₂, w₂, he⟩

/-- Neither null nor a method has a property, so no names read off them come to a class. -/
theorem readEach_ne_hostClass {names : List String} {v : Value}
    (hv : v = .null ∨ ∃ target method, v = .hostMethod target method)
    (he : (Evaluation.machine n).evaluate e w = .ok v w') :
    (Evaluation.machine (n + names.length)).evaluate (readEach span e names) w ≠ .ok (.hostClass c)
      w'' := by
  intro hread
  cases names with
  | nil =>
    have hsame := he.symm.trans hread
    cases hsame
    simp at hv
  | cons name names =>
    have hlength : n + (name :: names).length = n + 1 + names.length := by
      simp only [List.length_cons]
      omega
    rw [hlength] at hread
    obtain ⟨v₁, w₁, hget⟩ := ok_of_readEach hread
    rw [evaluate_get] at hget
    have hproperty := Run.ok_of_mapError hget
    rw [Run.bind_of_ok he] at hproperty
    rcases hv with rfl | ⟨target, method, rfl⟩
    · cases hproperty
    · cases hproperty

/-- Reading names off a class comes to the class that descending along them comes to. -/
theorem evaluate_readEach : ∀ {names : List String} {e : Expr} {n : Nat} {cls : HostClassId},
    (Evaluation.machine n).evaluate e w = .ok (.hostClass cls) w' →
      descend w'.heap cls names = some c →
    (Evaluation.machine (n + names.length)).evaluate (readEach span e names) w =
      .ok (.hostClass c) w'
  | [], _, _, cls, he, hdescend => by
    simp only [descend, List.foldlM_nil, Option.pure_def, Option.some.injEq] at hdescend
    rw [← hdescend]
    exact he
  | name :: names, e, n, cls, he, hdescend => by
    rw [descend_cons] at hdescend
    obtain ⟨c₁, hname, hrest⟩ := Option.bind_eq_some_iff.mp hdescend
    have hget : (Evaluation.machine (n + 1)).evaluate (.get e name span) w =
        .ok (.hostClass c₁) w' := by
      rw [evaluate_get]
      apply Run.mapError_of_ok
      rw [Run.bind_of_ok he]
      exact getStatic_nested hname
    have hlength : n + (name :: names).length = n + 1 + names.length := by
      simp only [List.length_cons]
      omega
    rw [hlength]
    exact evaluate_readEach hget hrest

/-- Where reading names off a class comes to a class, descending along them comes to it, unless a
static field answered on the way. -/
theorem descend_of_readEach : ∀ {names : List String} {e : Expr} {n : Nat} {cls : HostClassId},
    (Evaluation.machine n).evaluate e w = .ok (.hostClass cls) w' →
    (Evaluation.machine (n + names.length)).evaluate (readEach span e names) w =
      .ok (.hostClass c) w'' →
    (descend w'.heap cls names = some c ∧ w'' = w') ∨ FieldAnswers w'.heap cls names
  | [], _, _, cls, he, hread => by
    have hsame := he.symm.trans hread
    cases hsame
    exact .inl ⟨rfl, rfl⟩
  | name :: names, e, n, cls, he, hread => by
    have hlength : n + (name :: names).length = n + 1 + names.length := by
      simp only [List.length_cons]
      omega
    rw [hlength] at hread
    have hget := evaluate_get n e name span
    cases hname : w'.heap.findNested? cls name with
    | some c₁ =>
      have hok : (Evaluation.machine (n + 1)).evaluate (.get e name span) w =
          .ok (.hostClass c₁) w' := by
        rw [hget]
        apply Run.mapError_of_ok
        rw [Run.bind_of_ok he]
        exact getStatic_nested hname
      rcases descend_of_readEach hok hread with ⟨hdescend, hw⟩ | hfield
      · left
        rw [descend_cons, hname]
        exact ⟨hdescend, hw⟩
      · exact .inr (hfield.cons hname)
    | none =>
      cases hfield : w'.heap.findField? cls name true with
      | some field => exact .inr ⟨[], name, names, cls, field, rfl, rfl, hname, hfield⟩
      | none =>
        have hok : (Evaluation.machine (n + 1)).evaluate (.get e name span) w = .ok
            (if w'.heap.hasMethod cls name true then .hostMethod (.static cls) name else .null)
              w' := by
          rw [hget]
          apply Run.mapError_of_ok
          rw [Run.bind_of_ok he]
          exact getStatic_missing hname hfield
        refine absurd hread (readEach_ne_hostClass ?_ hok)
        by_cases hmethod : w'.heap.hasMethod cls name true
        · exact .inr ⟨.static cls, name, if_pos hmethod⟩
        · exact .inl (if_neg hmethod)

/-! ## Imports -/

/-- How imports resolve in a state with some classes, after some registrations. -/
structure ImportsResolve (h : Heap) (registrations : List (String × HostClassId)) : Prop where
  /-- A path resolves to what it names: the class last registered at it; else the class found by
  descending along the other names from the class last registered at its longest proper beginning;
  else nothing. -/
  resolves : ∀ path found,
    resolve h (registered registrations) path = found ↔ PathNames h registrations path found
  /-- A script that has a class at hand comes to the class the descent finds, by reading the names
  as properties one after another. A nested class is what it reads even where a static field or a
  static method has the same name. -/
  reads : ∀ n w w' e span cls names c, w'.heap = h →
    (Evaluation.machine n).evaluate e w = .ok (.hostClass cls) w' → descend h cls names = some c →
    (Evaluation.machine (n + names.length)).evaluate (readEach span e names) w =
      .ok (.hostClass c) w'
  /-- The other way round too, the script comes to the class of the descent, unless it was a static
  field that answered one of the reads, where the descent found no class. -/
  descends : ∀ n w w' w'' e span cls names c, w'.heap = h →
    (Evaluation.machine n).evaluate e w = .ok (.hostClass cls) w' →
    (Evaluation.machine (n + names.length)).evaluate (readEach span e names) w =
      .ok (.hostClass c) w'' →
    (descend h cls names = some c ∧ w'' = w') ∨ FieldAnswers h cls names
  /-- One more registration changes what its own path and the paths that go on from it by a dot
  resolve to, and no others. -/
  registers : ∀ p cls q, q ≠ p → (∀ rest, q ≠ p ++ "." ++ rest) →
    resolve h (registered (registrations ++ [(p, cls)])) q = resolve h (registered registrations) q

/-- Imports resolve so in every state, whatever was registered before. -/
theorem imports_resolve (h : Heap) (registrations : List (String × HostClassId)) :
    ImportsResolve h registrations where
  resolves path found := by
    have hnames := pathNames_resolve h registrations path
    constructor
    · rintro rfl
      exact hnames
    · intro hfound
      exact hnames.unique hfound
  reads n w w' e span cls names c hheap he hdescend := by
    subst hheap
    exact evaluate_readEach he hdescend
  descends n w w' w'' e span cls names c hheap he hread := by
    subst hheap
    exact descend_of_readEach he hread
  registers p cls q hne hnot := by
    have hlast : registered (registrations ++ [(p, cls)]) =
        register p cls (registered registrations) := by
      simp [registered]
    rw [hlast]
    exact resolve_register cls _ hne hnot

/-- A class `Widget` with a class `Style` nested in it, and a static field of that name beside
it. -/
def styled : Heap := { Heap.initial with
  scopes := #[⟨none, [("Widget", ⟨.hostClass ⟨1⟩, false⟩)]⟩]
  hostClasses := Heap.initial.hostClasses ++ #[
    ⟨"Widget", none, [], [], [⟨"Style", .any, .static .null⟩], [⟨2⟩], none⟩,
    ⟨"Style", none, [], [], [], [], none⟩] }

/-- A path that goes on from the only one registered finds the nested class, and so does a script
that reads its name off the outer class. -/
theorem imports_resolve_styled :
    resolve styled (registered [("gfx.Widget", ⟨1⟩)]) "gfx.Widget.Style" = some ⟨2⟩ ∧
      (Evaluation.machine 2).evaluate (.get (.var "Widget" default) "Style" default)
          { World.initial .default 0 0 with heap := styled } =
        .ok (.hostClass ⟨2⟩) { World.initial .default 0 0 with heap := styled } := by
  constructor
  · rw [(imports_resolve styled [("gfx.Widget", ⟨1⟩)]).resolves]
    have hname : ("Style").splitOn "." = ["Style"] := by
      show (String.intercalate "." ["Style"]).splitOn "." = ["Style"]
      exact splitOn_intercalate_dot (by simp) (by decide)
    have hfound : descend styled ⟨1⟩ (("Style").splitOn ".") = some ⟨2⟩ := by
      rw [hname]
      rfl
    rw [← hfound]
    refine .nested (by decide) (p := "gfx.Widget") (by decide) (by decide) ?_
    intro p' rest' hpath hlonger
    have hne : p' ≠ "gfx.Widget" := by
      rintro rfl
      exact absurd hlonger (Nat.lt_irrefl _)
    simp [lastRegistered?, List.lookup_cons, beq_false_of_ne hne]
  · exact (imports_resolve styled []).reads 1 _ _ (.var "Widget" default) default ⟨1⟩ ["Style"] ⟨2⟩
      rfl rfl rfl

end ScriptEngine
