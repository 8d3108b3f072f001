import ScriptEngine.Proofs.Movement
import ScriptEngine.Proofs.NameKeeping
import ScriptEngine.Proofs.Walk.Machines
/-!
# Scoped runs

A run is scoped if it leaves the names of every scope as they were, however it ends, with the
exception of given places; it comes back to its frame, makes no hidden function known, and its
result is shown. What it does in a scope that it made itself is no exception. This is a law, whose
places are the exceptions and the frame; it compares a run with nothing else.

* `World.Within` : a state in a frame whose heap hides the functions that are to be hidden.
* `Heap.Hides.alters` : one change of such a heap, with the names that it keeps.
* `Law.scoping` : the law.
* `Law.plainGrammar`, `Law.closed_scoping` : the plain trees, which declare nothing outside of
  scopes of their own.
* `Evaluation.machine_scoped` : whatever runs is scoped.

The function that schedules source text is out of scope: it is hidden, and no plain code comes by
it.
-/

namespace ScriptEngine

variable {ε α : Type} {hidden : NativeId → Prop} {w : World} {h h' : Heap}

/-- A state in the frame `f` that hides what is to be hidden. -/
structure World.Within (hidden : NativeId → Prop) (f : Frame) (w : World) : Prop where
  frame : w.frame = f
  hides : w.heap.Hides hidden

/-! ## Changes -/

/-- All values but hidden functions. -/
def Stock.hiding (hidden : NativeId → Prop) : Stock where
  Has := Value.Shown hidden
  common {v} hv := by
    rintro id rfl
    exact hv.elim

namespace Heap

theorem Hides.stocked (hh : h.Hides hidden) : h.Stocked (.hiding hidden) where
  lists := hh.lists
  fields o ho := (hh.objects o ho).1
  baked o ho := (hh.objects o ho).2
  instances _ _ _ _ := nofun

/-- A change of data hides what was hidden, if it gets no hidden function about. -/
theorem Hides.of_moves (hh : h.Hides hidden) (hm : h.Moves h') (hs : h'.Stocked (.hiding hidden)) :
    h'.Hides hidden where
  natives id n hn := by
    unfold native? at hn
    rw [hm.code.natives] at hn
    exact hh.natives id n hn
  known id hid := by
    rw [hm.code.natives]
    exact hh.known id hid
  root := by
    rw [hm.scopes]
    exact hh.root
  scopes s e he := by
    unfold scope at he
    rw [hm.scopes] at he
    exact hh.scopes s e he
  lists := hs.lists
  objects o ho := ⟨hs.fields o ho, hs.baked o ho⟩
  functions := by
    rw [hm.code.functions]
    exact hh.functions
  staticBlocks := by
    rw [hm.code.classes]
    exact hh.staticBlocks

end Heap

namespace Law

/-- What is said of a run: at the places names may be bound anew. -/
def scopingTerms (hidden : NativeId → Prop) : Terms where
  Case := Empty
  Place := Set (ScopeId × String) × Frame
  Holds p w _ := w.Within hidden p.2
  Keeps p h h' := h.KeepsNames p.1 h'
  Known _ v := v.Shown hidden
  There _ ref := ∀ s, ref = .inner s → s ≠ globalScope
  Bakes _ fields := fields.Shown hidden
  Binds p s name := (s, name) ∈ p.1
  function decl := ∀ s ∈ decl.body, s.Plain
  staticBlock block := ∀ s ∈ block, s.Plain

end Law

/-- **One change** hides what was hidden, and binds no name but at the places. -/
theorem Heap.Hides.alters {p : (Law.scopingTerms hidden).Place} (hh : h.Hides hidden)
    (ha : (Law.scopingTerms hidden).Alters p h h') : h'.Hides hidden ∧ h.KeepsNames p.1 h' := by
  have moved {h' : Heap} (hm : h.Moves h') (hs : h'.Stocked (.hiding hidden)) :
      h'.Hides hidden ∧ h.KeepsNames p.1 h' := ⟨hh.of_moves hm hs, .of_scopes hm.scopes⟩
  cases ha with
  | declared _ hp hb => exact ⟨hh.bind _ _ hb, .of_bind _ hp⟩
  | @assigned s owner name v htarget hv =>
    -- the target of an assignment is bound already, and not for good
    unfold assignTarget at htarget
    cases hfind : h.find? s name with
    | none => rw [hfind] at htarget; cases htarget
    | some found =>
      obtain ⟨owner', b⟩ := found
      rw [hfind] at htarget
      simp only at htarget
      cases hc : b.constant with
      | true => rw [hc] at htarget; cases htarget
      | false =>
        rw [hc] at htarget
        cases htarget
        exact ⟨hh.bind _ _ hv, .of_rebind (binding_of_findFrom hfind) hc.symm⟩
  | list hi => exact moved (moves_addList h _) (hh.stocked.addList hi)
  | items id hf => exact moved (moves_changeList h id _) (hh.stocked.changeList id hf)
  | fields hf => exact moved (moves_addObject h _) (hh.stocked.addFields hf)
  | made _ hb => exact ⟨hh.addObject nofun hb, .of_scopes rfl⟩
  | field _ hv => exact moved (moves_putField h _ _ _) (hh.stocked.putField _ _ hv)
  | function hd => exact ⟨hh.addFunction hd, .of_scopes rfl⟩
  | getter name hv => exact ⟨hh.addNative hv, .of_scopes rfl⟩
  | scriptClass hk => exact ⟨hh.addClass hk, .of_scopes rfl⟩
  | extension script base => exact ⟨hh.withExtension script base, .of_scopes rfl⟩
  | hostObject | slot => exact ⟨{ hh with }, .of_scopes rfl⟩

/-! ## The law -/

namespace Law

/-- **The law of scoped runs.** -/
def scoping (hidden : NativeId → Prop) : Law where
  toTerms := scopingTerms hidden
  native := NativeBody.Harmless hidden
  readable name := name ≠ "runOn"
  near _ := nofun
  keeps_refl _ := .refl
  keeps_trans := .trans
  alters hw ha := ⟨⟨hw.frame, (hw.hides.alters ha).1⟩, (hw.hides.alters ha).2⟩
  aside hw _ _ _ := ⟨hw.frame, hw.hides⟩
  enter shift p := (p.1, shift.apply p.2)
  holds_enter shift hw _ := ⟨congrArg shift.apply hw.frame, hw.hides⟩
  holds_leave _ hw hv _ := ⟨hw.frame, hv.hides⟩
  keeps_enter _ := id
  declares_enter := by
    rintro p shift s name hs hp w _ ⟨hframe, -⟩
    rw [hframe]
    show ((shift.apply p.2).scope, name) ∈ p.1
    rw [shift.scope_apply, hs]
    exact hp
  declares_loop := by
    rintro p name hp w _ ⟨hframe, hhides⟩
    rw [hframe]
    exact hp { w with frame := p.2 } nofun ⟨rfl, hhides⟩
  child p s := (p.1 ∪ { q | q.1 = s }, p.2)
  holds_child hw _ := ⟨hw.frame, hw.hides.addChild _⟩
  keeps_of_child := .of_child _
  binds_child _ _ _ := .inr rfl
  there_child _ hw := by
    refine ⟨nofun, ?_⟩
    rintro _ ⟨⟩ hglobal
    exact Nat.ne_of_gt hw.hides.root (congrArg ScopeId.index hglobal)
  Inside p q := q = p
  holds_call := by
    rintro p _ w _ rfl hw -
    exact ⟨hw.frame, hw.hides⟩
  holds_return := by
    rintro p _ w _ rfl hw
    exact ⟨hw.frame, hw.hides⟩
  keeps_call := by
    rintro p _ _ _ rfl hk
    exact hk
  Beside p q := q = p
  holds_thread := by
    rintro p _ w _ rfl hw
    exact ⟨hw.frame, hw.hides⟩
  holds_join := by
    rintro p _ w _ v _ rfl - hv -
    exact ⟨hv.frame, hv.hides⟩
  keeps_thread := by
    rintro p _ _ _ rfl hk
    exact hk
  scope_there _ := nofun
  globals_there _ := nofun
  function_at hw := hw.hides.functions
  closure_there _ _ _ := nofun
  staticBlock_at hw := hw.hides.staticBlocks
  native_at hw _ _ hknown hn := hw.hides.harmless hn (hknown _ rfl)
  constant_known hw _ _ _ hknown hn hbody := by
    have hharmless := hw.hides.harmless hn (hknown _ rfl)
    rw [hbody] at hharmless
    exact hharmless
  hostClass_at _ _ _ := trivial
  extension_there _ _ _ _ _ _ := nofun
  lookup_known hw _ _ _ hv hreads :=
    hreads.elim (hw.hides.shown_lookup hv) fun hne id heq => absurd heq (hne id)
  locals_known hw _ hs := hw.hides.shown_localBindings (hs _ rfl)
  list_known hw := hw.hides.stocked.list
  fields_known hw := hw.hides.stocked.objectFields
  baked_known hw := hw.hides.stocked.objectBaked
  enclosing_known _ hharmless := hharmless.elim
  readable_of_native hharmless := hharmless.elim False.elim False.elim
  known_common := (Stock.hiding hidden).common
  known_later _ hv := hv
  there_later _ hr := hr
  bakes_bakedFrom hb := Stock.hasFields_ofPairs (S := .hiding hidden) fun e he => by
    obtain ⟨e', he', rfl⟩ := List.mem_map.mp he
    exact hb e' he'
  bakes_later _ hb := hb
  there_function _ _ := nofun
  there_object _ _ := nofun
  there_extension _ _ _ := nofun
  known_class _ _ := nofun
  known_native hw n := by
    rintro _ ⟨⟩ hid
    exact Nat.lt_irrefl _ (hw.hides.known _ hid)

end Law

/-! ## Plain trees -/

/-- A statement binds no name but the one that it declares. -/
theorem Stmt.declares?_of_binds {s : Stmt} {name : String} (hs : s.Shaped) (hb : s.Binds name) :
    s.declares? = some name := by
  cases s with
  | binding | function | classDecl => exact congrArg some hb.symm
  | importType path span =>
    obtain ⟨last, hlast⟩ := Option.ne_none_iff_exists'.mp
      (mt List.getLast?_eq_none_iff.mp (hs.path path span rfl))
    exact hlast.trans (congrArg some (hb last hlast).symm)
  | _ => exact hb.elim

namespace Law

/-- The law is about plain trees. -/
def plainGrammar (hidden : NativeId → Prop) : Grammar (scoping hidden) where
  expr e := e.Plain
  stmt s := s.Plain
  expr_places _ := ⟨fun _ => trivial, id⟩
  stmt_places _ := ⟨fun _ => trivial, id⟩
  mention_places _ _ _ := ⟨fun _ => trivial, id⟩
  children he := (Expr.throughout_iff.mp he).2.1
  lambdas he := (Expr.throughout_iff.mp he).2.2
  reads {e} he name hname := by
    cases e with
    | var read span =>
      obtain rfl := List.mem_singleton.mp hname
      rintro rfl
      exact (Expr.throughout_iff.mp he).1 span rfl
    | this =>
      obtain rfl := List.mem_singleton.mp hname
      exact (by decide : "this" ≠ "runOn")
    | _ => cases hname
  exprs hs := (Stmt.throughout_iff.mp hs).2.1
  inner hs := (Stmt.throughout_iff.mp hs).2.2.1
  functions hs := (Stmt.throughout_iff.mp hs).2.2.2.1
  staticBlocks hs := (Stmt.throughout_iff.mp hs).2.2.2.2
  branches {s} hs hopens s' hs' name hbinds := by
    obtain ⟨hshaped, -, hinner, -⟩ := Stmt.throughout_iff.mp hs
    have hbranch : s' ∈ s.branches := by
      cases s with
      | cond | loop => exact hs'
      | _ => cases hopens
    have hdeclares := Stmt.declares?_of_binds (Stmt.throughout_iff.mp (hinner s' hs')).1 hbinds
    rw [hshaped.branches s' hbranch] at hdeclares
    cases hdeclares
  bodies := id
  blocks := id
  stops := trivial

/-- Nothing that is known hands a task over. -/
theorem closed_scoping : (plainGrammar hidden).Closed where
  uncarried _ := id
  inside p := ⟨p, rfl⟩
  beside p := ⟨p, rfl⟩
  queued hrun := absurd rfl hrun
  sources hrun := absurd rfl hrun
  declares_top hrun := absurd rfl hrun

end Law

/-- **Whatever runs is scoped**, within every budget. -/
theorem Evaluation.machine_scoped (n : Nat) :
    Calls.Obey (Law.plainGrammar hidden) (.all _) (.all _) (machine n) fun _ => machine n :=
  machine_obeys Law.closed_scoping n

end ScriptEngine
