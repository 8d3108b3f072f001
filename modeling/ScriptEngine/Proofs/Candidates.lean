import Mathlib.Data.List.Forall2
import ScriptEngine.Proofs.Instances
/-!
# Candidates

A call is dispatched among candidates by fitting its arguments to the parameters of one after
another. The first one whose parameters take the arguments runs, on arguments that fit its
parameters and on the state that the call found; no other one runs, whatever comes of it.

* `Heap.Fits`, `Heap.fits_of_coerce` : what a parameter of a type may be given.
* `Host.Arguments.fitted_fit` : what the arguments of a call become, from a script or from the host.
* `Host.Dispatched` : what one dispatch among candidates comes to.
* **`Host.firstFit_dispatched`, `Host.firstHostFit_dispatched`** : the two loops over candidates.
-/

namespace ScriptEngine

theorem Number.Exact.toInt_mem {low high : Int} (hlow : low ≤ 0) (hhigh : 0 ≤ high)
    (x : Number.Exact) : low ≤ x.toInt low high ∧ x.toInt low high ≤ high := by
  cases x with
  | nan => exact ⟨hlow, hhigh⟩
  | infinite negative => cases negative <;> simp [Number.Exact.toInt] <;> omega
  | finite negative m e => simp only [Number.Exact.toInt]; omega

theorem Run.bind_of_error {ε α β : Type} {r : Run ε α} {k : α → Run ε β} {e : ε} {w w' : World}
    (h : r w = .error e w') : (r >>= k) w = .error e w' := by
  simp only [Bind.bind, h]

/-! ## Arguments that fit -/

namespace Heap

variable {h : Heap} {type : HostType} {d d' : HostData}

/-- The data is null or of the type. For the name of a host class these are the objects whose class
has that name or inherits from one that has it. -/
inductive Fits (h : Heap) : HostType → HostData → Prop
  | null (type : HostType) : Fits h type .null
  | any (d : HostData) : Fits h .any d
  | int {i : Int} (hlow : Number.minInt32 ≤ i) (hhigh : i ≤ Number.maxInt32) : Fits h .int (.int i)
  | long (i : Int) : Fits h .long (.long i)
  | float (f : Float32) : Fits h .float (.float f)
  | double (f : Float) : Fits h .double (.double f)
  | bool (b : Bool) : Fits h .bool (.bool b)
  | string (s : String) : Fits h .string (.string s)
  | list (items : List HostData) : Fits h .list (.list items)
  | map (entries : List (String × HostData)) : Fits h .map (.map entries)
  | object {name : String} {id : HostId} {cls : HostClassId}
      (hcls : cls ∈ h.ancestry (h.classOf id)) (hname : (h.hostClass cls).name = name) :
      Fits h (.object name) (.object id)

theorem fits_of_isA {name : String} {id : HostId} (ha : h.isA (h.classOf id) name) :
    h.Fits (.object name) (.object id) := by
  obtain ⟨cls, hcls, hname⟩ := List.any_eq_true.mp ha
  exact .object hcls (beq_iff_eq.mp hname)

theorem fits_toInt (x : Number.Exact) :
    h.Fits .int (.int (x.toInt Number.minInt32 Number.maxInt32)) := by
  have hmin : Number.minInt32 ≤ 0 := by decide
  have hmax : 0 ≤ Number.maxInt32 := by decide
  obtain ⟨hlow, hhigh⟩ := Number.Exact.toInt_mem hmin hmax x
  exact .int hlow hhigh

/-- What data becomes that is fitted to a type is of that type. -/
theorem fits_of_coerce (hd : h.coerce type d = .ok d') : h.Fits type d' := by
  unfold coerce at hd
  split at hd
  · cases hd; exact .null _
  · cases hd; exact .any _
  · cases hd; exact .bool _
  · cases hd; exact .string _
  · cases hd; exact .list _
  · cases hd; exact .map _
  · split at hd
    · rename_i ha
      cases hd
      exact fits_of_isA ha
    · cases hd
  · cases hd; exact .long _
  · split at hd
    · cases hd
    · split at hd
      · cases hd
        exact fits_toInt _
      · cases hd; exact .long _
      · cases hd; exact .float _
      · cases hd; exact .double _
      · cases hd

theorem forall₂_of_mapM {α β ε : Type} {f : α → Except ε β} :
    ∀ {as : List α} {bs : List β}, as.mapM f = .ok bs → List.Forall₂ (fun a b => f a = .ok b) as bs
  | [], bs, hbs => by
    cases hbs
    exact .nil
  | a :: as, bs, hbs => by
    rw [List.mapM_cons] at hbs
    cases ha : f a with
    | error e => rw [ha] at hbs; cases hbs
    | ok b =>
      cases has : as.mapM f with
      | error e => rw [ha, has] at hbs; cases hbs
      | ok bs' =>
        rw [ha, has] at hbs
        cases hbs
        exact .cons ha (forall₂_of_mapM has)

/-- As many arguments as there are parameters become as many again, each of its parameter's type. -/
theorem fits_of_coerceAll {types : List HostType} {args fitted : List HostData}
    (hlength : types.length = args.length) (hfit : h.coerceAll types args = .ok fitted) :
    List.Forall₂ h.Fits types fitted := by
  rw [← List.map_fst_zip (Nat.le_of_eq hlength), List.forall₂_map_left_iff]
  exact (forall₂_of_mapM hfit).imp fun _ _ hd => fits_of_coerce hd

end Heap

/-! ## Fitting -/

/-- The attempt to fit something comes to a result with the property or to a refusal, and leaves the
state as it was; or it never ends. -/
inductive Fitted {α : Type} (w : World) (P : α → Prop) : Outcome HostError α → Prop
  | ok {a : α} (ha : P a) : Fitted w P (.ok a w)
  | refused (e : HostError) : Fitted w P (.error e w)
  | endless : Fitted w P (.stopped .stuck)

namespace Fitted

variable {α β : Type} {w : World} {P : α → Prop} {Q : β → Prop}

theorem bind {r : HostRun α} {k : α → HostRun β} (hr : Fitted w P (r w))
    (hk : ∀ a, P a → Fitted w Q (k a w)) : Fitted w Q ((r >>= k) w) := by
  simp only [Bind.bind]
  generalize r w = o at hr ⊢
  cases hr with
  | ok ha => exact hk _ ha
  | refused e => exact .refused e
  | endless => exact .endless

theorem natural (v : Value) : Fitted w (fun _ => True) (HostRun.natural v w) := by
  unfold HostRun.natural
  cases w.heap.naturalWithin (w.heap.containers + 1) v with
  | ok d => exact .ok trivial
  | error e =>
    cases e with
    | some e => exact .refused e
    | none => exact .endless

theorem toHost (type : HostType) (v : Value) :
    Fitted w (w.heap.Fits type) (HostRun.toHost type v w) := by
  refine (natural v).bind fun d _ => .bind (P := (· = w.heap.coerce type d)) (.ok rfl) ?_
  rintro fitted hfitted
  cases fitted with
  | ok d' => exact .ok (Heap.fits_of_coerce hfitted.symm)
  | error e => exact .refused e

theorem toHostAll : ∀ {types : List HostType} {args : List Value}, types.length = args.length →
    Fitted w (List.Forall₂ w.heap.Fits types) (HostRun.toHostAll types args w)
  | [], [], _ => .ok .nil
  | type :: _, v :: _, hlength =>
    (toHost type v).bind fun _ hd => (toHostAll (Nat.succ.inj hlength)).bind fun _ hrest =>
      .ok (.cons hd hrest)

end Fitted

namespace Host

open Run

/-- The arguments of a call, as a script or as the host gives them. -/
inductive Arguments
  | script (args : List Value)
  | host (args : List HostData)

namespace Arguments

/-- How many arguments there are. -/
def length : Arguments → Nat
  | script args => args.length
  | host args => args.length

/-- Fits the arguments to the types of the parameters. -/
def fit (types : List HostType) : Arguments → HostRun (List HostData)
  | script args => HostRun.toHostAll types args
  | host args => fun w => ofExcept (w.heap.coerceAll types args) w

variable {w : World} {args : Arguments} {types : List HostType}

theorem fit_script (args : List Value) :
    (script args).fit types w = HostRun.toHostAll types args w := rfl

theorem fit_host (args : List HostData) :
    (host args).fit types w = ofExcept (w.heap.coerceAll types args) w := rfl

/-- **What a body is given fits its parameters**: as many as there are of them, each null or of the
type at its place. -/
theorem fitted_fit (hlength : types.length = args.length) :
    Fitted w (List.Forall₂ w.heap.Fits types) (args.fit types w) := by
  cases args with
  | script args => exact .toHostAll hlength
  | host args =>
    rw [fit_host]
    cases hfit : w.heap.coerceAll types args with
    | ok fitted => exact .ok (Heap.fits_of_coerceAll hlength hfit)
    | error e => exact .refused e

theorem fit_nil (hlength : args.length = 0) : args.fit [] w = .ok [] w := by
  cases args <;> rfl

/-- The arguments do not convert to the types. -/
def Refused (w : World) (args : Arguments) (types : List HostType) : Prop :=
  ∃ e, args.fit types w = .error e w

end Arguments

/-! ## One dispatch -/

section Dispatch

variable {α ε β : Type} {w : World} {args : Arguments} {params : α → List HostType}
  {body : α → List HostData → Run ε β} {otherwise : Outcome ε β → Prop} {m : α} {ms : List α}
  {o : Outcome ε β}

/-- What comes of a dispatch among candidates, tried in order. -/
inductive Dispatched (w : World) (args : Arguments) (params : α → List HostType)
    (body : α → List HostData → Run ε β) (otherwise : Outcome ε β → Prop) (candidates : List α) :
    Outcome ε β → Prop
  /-- The first candidate whose parameters take the arguments runs, on arguments that fit them and
  on the state that the call found; its outcome is that of the call. -/
  | ran {before after : List α} {m : α} {fitted : List HostData}
      (hcandidates : candidates = before ++ m :: after)
      (hbefore : ∀ c ∈ before, args.Refused w (params c))
      (hm : args.fit (params m) w = .ok fitted w)
      (hfits : List.Forall₂ w.heap.Fits (params m) fitted) :
      Dispatched w args params body otherwise candidates (body m fitted w)
  /-- No candidate takes the arguments, and none runs. -/
  | refused {o : Outcome ε β} (hall : ∀ c ∈ candidates, args.Refused w (params c))
      (ho : otherwise o) : Dispatched w args params body otherwise candidates o
  /-- Fitting the arguments to the first candidate that does not refuse them never ends, as that of
  a list inside itself, and none runs. -/
  | endless {before after : List α} {m : α} (hcandidates : candidates = before ++ m :: after)
      (hbefore : ∀ c ∈ before, args.Refused w (params c))
      (hm : args.fit (params m) w = .stopped .stuck) :
      Dispatched w args params body otherwise candidates (.stopped .stuck)

namespace Dispatched

theorem of_eq {o' : Outcome ε β} (h : Dispatched w args params body otherwise ms o') (ho : o = o') :
    Dispatched w args params body otherwise ms o := ho ▸ h

/-- A candidate that refuses the arguments is passed over. -/
theorem pass (hm : args.Refused w (params m)) (h : Dispatched w args params body otherwise ms o) :
    Dispatched w args params body otherwise (m :: ms) o := by
  cases h with
  | ran hms hbefore hran hfits =>
    exact .ran (congrArg (m :: ·) hms) (List.forall_mem_cons.mpr ⟨hm, hbefore⟩) hran hfits
  | refused hall ho => exact .refused (List.forall_mem_cons.mpr ⟨hm, hall⟩) ho
  | endless hms hbefore hstuck =>
    exact .endless (congrArg (m :: ·) hms) (List.forall_mem_cons.mpr ⟨hm, hbefore⟩) hstuck

/-- What is done with the outcome of a body is done with that of the dispatch. -/
theorem map {δ γ : Type} {body' : α → List HostData → Run δ γ} {otherwise' : Outcome δ γ → Prop}
    {g : Outcome ε β → Outcome δ γ} (h : Dispatched w args params body otherwise ms o)
    (hstuck : g (.stopped .stuck) = .stopped .stuck)
    (hbody : ∀ m fitted, g (body m fitted w) = body' m fitted w)
    (hother : ∀ o, otherwise o → otherwise' (g o)) :
    Dispatched w args params body' otherwise' ms (g o) := by
  cases h with
  | ran hms hbefore hm hfits =>
    rw [hbody]
    exact .ran hms hbefore hm hfits
  | refused hall ho => exact .refused hall (hother o ho)
  | endless hms hbefore hm =>
    rw [hstuck]
    exact .endless hms hbefore hm

/-- Where all candidates are without parameters and there are no arguments, the first one runs. -/
theorem of_head? (hlength : args.length = 0) (hparams : ∀ m ∈ ms, params m = [])
    (hsome : ∀ m, ms.head? = some m → o = body m [] w) (hnil : ms = [] → otherwise o) :
    Dispatched w args params body otherwise ms o := by
  cases ms with
  | nil => exact .refused (List.forall_mem_nil _) (hnil rfl)
  | cons m ms =>
    have hm : params m = [] := hparams m List.mem_cons_self
    obtain rfl := hsome m rfl
    refine .ran (rfl : _ = [] ++ m :: ms) (List.forall_mem_nil _) ?_ ?_
    · rw [hm]
      exact Arguments.fit_nil hlength
    · rw [hm]
      exact .nil

end Dispatched

/-- A candidate and its arguments, chosen but not run. -/
def choose (m : α) (fitted : List HostData) : Run ε (Option (α × List HostData)) :=
  pure (some (m, fitted))

/-- One round of a loop over candidates: the first one runs, or it is passed over and the loop goes
on with the others. -/
theorem Dispatched.round (hlength : (params m).length = args.length)
    (hran : ∀ fitted, args.fit (params m) w = .ok fitted w → o = body m fitted w)
    (hpass : ∀ e, args.fit (params m) w = .error e w →
      Dispatched w args params body otherwise ms o)
    (hstuck : args.fit (params m) w = .stopped .stuck → o = .stopped .stuck) :
    Dispatched w args params body otherwise (m :: ms) o := by
  have hfitted := args.fitted_fit (w := w) hlength
  generalize hfit : args.fit (params m) w = fit at hfitted
  cases hfitted with
  | ok hfits =>
    obtain rfl := hran _ hfit
    exact .ran (rfl : _ = [] ++ m :: ms) (List.forall_mem_nil _) hfit hfits
  | refused e => exact .pass ⟨e, hfit⟩ (hpass e hfit)
  | endless =>
    obtain rfl := hstuck hfit
    exact .endless (rfl : _ = [] ++ m :: ms) (List.forall_mem_nil _) hfit

/-- **A script's loop over candidates dispatches.** -/
theorem firstFit_dispatched {args : List Value} :
    ∀ ms : List α, (∀ m ∈ ms, (params m).length = args.length) →
      Dispatched w (.script args) params choose (· = .ok none w) ms (firstFit params args ms w)
  | [], _ => .refused (List.forall_mem_nil _) rfl
  | m :: ms, hlength => by
    obtain ⟨hm, hms⟩ := List.forall_mem_cons.mp hlength
    unfold firstFit
    simp only [Bind.bind, Run.attempt]
    refine .round hm (fun fitted hfit => ?_) (fun e hfit => ?_) (fun hfit => ?_)
    all_goals rw [Arguments.fit_script] at hfit
    · rw [hfit]
      rfl
    · rw [hfit]
      exact firstFit_dispatched ms hms
    · rw [hfit]

/-- **The host's loop over candidates dispatches.** -/
theorem firstHostFit_dispatched {args : List HostData} :
    ∀ ms : List HostMethod, (∀ m ∈ ms, m.params.length = args.length) →
      Dispatched w (.host args) HostMethod.params choose (· = .ok none w) ms
        ((.ok (firstHostFit w.heap args ms) w : Outcome ε _))
  | [], _ => .refused (List.forall_mem_nil _) rfl
  | m :: ms, hlength => by
    obtain ⟨hm, hms⟩ := List.forall_mem_cons.mp hlength
    unfold firstHostFit
    refine .round hm (fun fitted hfit => ?_) (fun e hfit => ?_) (fun hfit => ?_)
    all_goals
      rw [Arguments.fit_host] at hfit
      cases hcoerce : w.heap.coerceAll m.params args <;> rw [hcoerce] at hfit <;> cases hfit
    · rfl
    · exact firstHostFit_dispatched ms hms

/-- Where a choice among the candidates is made, what is made of the choice is a dispatch. -/
theorem Dispatched.of_choice {r : Run ε (Option (α × List HostData))}
    (hr : Dispatched w args params choose (· = .ok none w) ms (r w))
    (hsome : ∀ m fitted, r w = .ok (some (m, fitted)) w → o = body m fitted w)
    (hnone : r w = .ok none w → otherwise o)
    (hstuck : r w = .stopped .stuck → o = .stopped .stuck) :
    Dispatched w args params body otherwise ms o := by
  generalize hchoice : r w = choice at hr
  cases hr with
  | ran hms hbefore hm hfits =>
    obtain rfl := hsome _ _ hchoice
    exact .ran hms hbefore hm hfits
  | refused hall hnothing => exact .refused hall (hnone (hchoice.trans hnothing))
  | endless hms hbefore hm =>
    obtain rfl := hstuck hchoice
    exact .endless hms hbefore hm

variable {γ δ : Type} {r : Run ε β}

/-- What is done after a body is done after the dispatch. -/
theorem Dispatched.andThen {otherwise' : Outcome ε γ → Prop} (k : β → Run ε γ)
    (hr : Dispatched w args params body otherwise ms (r w))
    (hother : ∀ r', otherwise (r' w) → otherwise' ((r' >>= k) w)) :
    Dispatched w args params (fun m fitted => body m fitted >>= k) otherwise' ms ((r >>= k) w) := by
  refine .map (g := fun o => ((fun _ => o : Run ε _) >>= k) w) (o := r w) hr rfl ?_ ?_
  · exact fun _ _ => rfl
  · exact fun o ho => hother (fun _ => o) ho

/-- Turning the errors of a body into others turns those of the dispatch into them. -/
theorem Dispatched.mapError {otherwise' : Outcome δ β → Prop} (g : ε → δ)
    (hr : Dispatched w args params body otherwise ms (r w))
    (hother : ∀ r', otherwise (r' w) → otherwise' (Run.mapError g r' w)) :
    Dispatched w args params (fun m fitted => (body m fitted).mapError g) otherwise' ms
      (r.mapError g w) := by
  refine .map (g := fun o => Run.mapError g (fun _ => o) w) (o := r w) hr rfl ?_ ?_
  · exact fun _ _ => rfl
  · exact fun o ho => hother (fun _ => o) ho

end Dispatch

end Host

end ScriptEngine
