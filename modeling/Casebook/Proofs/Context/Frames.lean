import Casebook.Proofs.Context.Binding
import Casebook.Proofs.Context.Looking
import Casebook.Proofs.Context.Writes
import Mathlib

/-!
# What a call of a built-in verb changes

`Set` binds its keywords, and `SetVar`, `DyStrData` and `DyJsonData` bind the variable that their
first parameter names to the value they give; `Builtin.assigned` reads both off the arguments of the
call, wherever the parameter is given. Main statement: as long as no deferred value holds a call,
nothing else is changed by a call that succeeds, and nothing at all by one that fails.
-/

namespace Casebook

open Computation

/-! ## What a built-in verb assigns -/

namespace Builtin

/-- What a built-in verb binds when it is called with some arguments and gives a value. -/
def assigned (b : Builtin) (args : Arguments) (v : Value) : List (String × Value) :=
  match b.name with
  | "Set" => args.named
  | "SetVar" | "DyStrData" | "DyJsonData" =>
    (b.verb.signature.given args 0).map fun name => (name.render, v)
  | _ => []

theorem assigned_eq_nil {b : Builtin} (hname : b.name ∉ bindingNames) (args : Arguments)
    (v : Value) : b.assigned args v = [] := by
  simp only [bindingNames, List.mem_cons, not_or] at hname
  unfold assigned
  split
  · next heq => exact absurd heq hname.1
  · next heq => exact absurd heq hname.2.1
  · next heq => exact absurd heq hname.2.2.1
  · next heq => exact absurd heq hname.2.2.2.1
  · rfl

end Builtin

/-- The first value of a verb that requires one is what a call gives to its first parameter. -/
theorem Signature.Binds.given_zero {s : Signature} {args bound : Arguments}
    (h : s.Binds args bound) (hrequired : 0 < s.required) :
    (s.given args 0).map Value.render = [bound.text 0] := by
  have hlength : 0 < bound.positional.length := Nat.lt_of_lt_of_le hrequired h.required_le
  rw [h.given_eq, Arguments.text, Arguments.get?, List.getElem?_eq_getElem hlength]
  rfl

/-- What a verb does with its bound arguments when reading a variable comes to a result. -/
def Verb.action (verb : Verb) (bound : Arguments) (found : Except Error Value) :
    StoreAction Value :=
  match verb.body with
  | .direct run => run bound
  | .onVariable run => run bound found

theorem Verb.IsQuiet.moves_action {verb : Verb} (h : verb.IsQuiet) (bound : Arguments)
    (found : Except Error Value) : Moves (Same id) (verb.action bound found) := by
  obtain ⟨signature, run | run⟩ := verb
  · exact h bound
  · exact h bound found

/-- A built-in verb leaves a store with what it binds if it gives a value, and as it is if it
fails. -/
def Builtin.AssignsOnly (b : Builtin) : Prop :=
  ∀ args bound found store, b.verb.signature.bind b.name args = .ok bound →
    (∀ v, (exec (b.verb.action bound found) store).1 = .ok v →
        (exec (b.verb.action bound found) store).2 = store.setAll (b.assigned args v)) ∧
      ∀ e, (exec (b.verb.action bound found) store).1 = .error e →
        (exec (b.verb.action bound found) store).2 = store

namespace Builtin

/-- The parameters of a built-in verb have different names. -/
theorem nodup_params : ∀ b ∈ all, b.verb.signature.params.Nodup := by
  decide

section AssignsOnly

variable {b : Builtin}

theorem assignsOnly_of_notMem (hb : b ∈ all) (hname : b.name ∉ bindingNames) :
    b.AssignsOnly := by
  intro args bound found store _
  have hsame : (exec (b.verb.action bound found) store).2 = store :=
    (isQuiet_of_notMem_bindingNames b hb hname).moves_action bound found store
  refine ⟨fun v _ => ?_, fun _ _ => hsame⟩
  rw [assigned_eq_nil hname]
  exact hsame

theorem assignsOnly_of_bindsGiven (hparams : b.verb.signature.params.Nodup)
    (hrequired : 0 < b.verb.signature.required)
    (hname : b.name = "SetVar" ∨ b.name = "DyStrData" ∨ b.name = "DyJsonData")
    (hgiven : ∀ bound found, BindsGiven (bound.text 0) (b.verb.action bound found)) :
    b.AssignsOnly := by
  intro args bound found store hbind
  have hassigned (v : Value) : b.assigned args v =
      ((b.verb.signature.given args 0).map Value.render).map fun name => (name, v) := by
    rw [List.map_map]
    rcases hname with hname | hname | hname <;> rw [assigned, hname] <;> rfl
  have hfirst := ((Signature.bind_eq_ok_iff hparams).mp hbind).given_zero hrequired
  have hstore := hgiven bound found store
  refine ⟨fun v hok => ?_, fun e herror => ?_⟩
  · rw [hstore, hok, hassigned, hfirst]
    rfl
  · rw [hstore, herror]
    rfl

theorem assignsOnly_set (hparams : Signature.keywordsOnly.params.Nodup) (description : String) :
    AssignsOnly ⟨"Set", description, ⟨.keywordsOnly, .direct set⟩⟩ := by
  intro args bound found store hbind
  -- No keyword names a parameter, so those that are bound are those of the call.
  have hnamed := ((Signature.bind_eq_ok_iff hparams).mp hbind).named_eq
  have hothers : Signature.keywordsOnly.others args.named = args.named :=
    List.filter_eq_self.mpr fun _ _ => rfl
  exact ⟨fun _ _ => congrArg store.setAll (hnamed.trans hothers), nofun⟩

theorem assignsOnly_of_mem_all : ∀ b ∈ all, b.AssignsOnly := by
  intro b hb
  have hparams := nodup_params b hb
  by_cases hname : b.name ∈ bindingNames
  · simp only [all, List.mem_cons, List.not_mem_nil, or_false] at hb
    rcases hb with rfl | rfl | rfl | rfl | rfl | rfl | rfl | rfl | rfl | rfl | rfl
    · exact assignsOnly_set hparams _
    · exact assignsOnly_of_bindsGiven hparams (by decide) (by decide)
        fun bound _ => bindsGiven_setVar bound
    · exact absurd hname (by decide)
    · exact assignsOnly_of_bindsGiven hparams (by decide) (by decide)
        fun bound _ => bindsGiven_dyStrData bound
    · exact assignsOnly_of_bindsGiven hparams (by decide) (by decide)
        fun bound _ => bindsGiven_dyJsonData bound
    all_goals exact absurd hname (by decide)
  · exact assignsOnly_of_notMem hb hname

end AssignsOnly

end Builtin

/-! ## Calls -/

section Invoke

variable {rules : Rules} {reading : String → Evaluation Value} {name : String} {verb : Verb}
  {args : Arguments}

/-- A verb that refuses its arguments does nothing. -/
theorem gives_invoke_of_refused {e : Error} (hverb : rules.verbs.get? name = some verb)
    (hbind : verb.signature.bind name args = .error e) (store : Store) :
    Gives store (rules.invoke reading name args) (.error e) := by
  intro session hs
  rw [exec_invoke_of_refused hverb hbind]
  exact ⟨rfl, hs⟩

/-- A verb that takes its arguments works on the store, if reading a variable leaves it. -/
theorem exec_invoke_of_gives {bound : Arguments} {found : Except Error Value} {s : Session}
    (hverb : rules.verbs.get? name = some verb) (hbind : verb.signature.bind name args = .ok bound)
    (hreading : Gives s.store (reading (bound.text 0)) found) :
    (exec (rules.invoke reading name args) s).1 = (exec (verb.action bound found) s.store).1 ∧
      (exec (rules.invoke reading name args) s).2.store =
        (exec (verb.action bound found) s.store).2 := by
  rw [exec_invoke_of_bound hverb hbind]
  obtain ⟨signature, run | run⟩ := verb
  · exact ⟨rfl, rfl⟩
  · obtain ⟨hfound, hstore⟩ :=
      gives_outcome hreading { s with journal := .invoked name bound :: s.journal } rfl
    dsimp only [Verb.work]
    rw [exec_bind_of_ok (Prod.ext hfound rfl)]
    exact ⟨congrArg (fun store => (exec (run bound found) store).1) hstore,
      congrArg (fun store => (exec (run bound found) store).2) hstore⟩

end Invoke

namespace Context

variable {c : Context}

/-- A variable that is not among those that are bound keeps its binding. -/
theorem find?_setAll_of_notMem (c : Context) {entries : List (String × Value)} {name : String}
    (h : name ∉ entries.map Prod.fst) :
    (c.setAll entries).store.find? name = c.store.find? name := by
  have hlast : lastOf entries name = none := by
    rw [lastOf, Option.map_eq_none_iff, List.find?_eq_none]
    intro entry hentry heq
    refine h (List.mem_map.mpr ⟨entry, List.mem_reverse.mp hentry, ?_⟩)
    simpa using heq
  rw [setAll, Store.find?_setAll, hlast]
  rfl

/-- A verb is called: its arguments are refused and nothing is done, or they are bound and the verb
works on the store, which reading a variable has left as it was. -/
theorem call_cases (callFree : c.IsCallFree) {name : String} {verb : Verb}
    (hverb : c.verbs.get? name = some verb) (args : Arguments) :
    (∃ e, c.call name args = (.error e, c)) ∨
      ∃ bound found, verb.signature.bind name args = .ok bound ∧
        c.call name args = ((exec (verb.action bound found) c.store).1,
          { c with store := (exec (verb.action bound found) c.store).2 }) := by
  have hrules : c.rules.verbs.get? name = some verb := hverb
  cases hbind : verb.signature.bind name args with
  | error e =>
    have hgives : Gives c.store (c.rules.invoke (c.rules.fresh c.readings) name args) (.error e) :=
      gives_invoke_of_refused hrules hbind c.store
    obtain ⟨hresult, hstore⟩ := hgives ⟨c.store, []⟩ rfl
    exact .inl ⟨e, Prod.ext hresult (congrArg (fun store => { c with store }) hstore)⟩
  | ok bound =>
    have hlooks : Looks Set.univ c (c.rules.fresh c.readings (bound.text 0)) :=
      looks_fresh callFree.callsOnly nofun c.readings (bound.text 0)
    obtain ⟨found, hfound⟩ := hlooks
    have hreading : Gives c.store (c.rules.fresh c.readings (bound.text 0)) found :=
      hfound c.store.clock trivial
    obtain ⟨hresult, hstore⟩ := exec_invoke_of_gives (s := ⟨c.store, []⟩) hrules hbind hreading
    exact .inr ⟨bound, found, rfl,
      Prod.ext hresult (congrArg (fun store => { c with store }) hstore)⟩

/-- As long as no deferred value holds a call, a call of a built-in verb that fails leaves the
context, and one that succeeds leaves it but for what the verb assigns: what `Set` is given by
keyword, and what `SetVar`, `DyStrData` and `DyJsonData` are given for their first parameter. The
others leave the context either way. -/
theorem call_frame (callFree : c.IsCallFree) {b : Builtin} (hb : b ∈ Builtin.all)
    (hverb : c.verbs.get? b.name = some b.verb) (args : Arguments) :
    (∀ e, (c.call b.name args).1 = .error e → (c.call b.name args).2 = c) ∧
      (∀ v, (c.call b.name args).1 = .ok v →
        (c.call b.name args).2 = c.setAll (b.assigned args v) ∧
          (c.call b.name args).2.store.rest = c.store.rest ∧
          ∀ other, other ∉ (b.assigned args v).map Prod.fst →
            (c.call b.name args).2.store.find? other = c.store.find? other) ∧
      (b.name ∉ Builtin.bindingNames → (c.call b.name args).2 = c) := by
  have hcall : (∀ e, (c.call b.name args).1 = .error e → (c.call b.name args).2 = c) ∧
      ∀ v, (c.call b.name args).1 = .ok v →
        (c.call b.name args).2 = c.setAll (b.assigned args v) := by
    rcases call_cases callFree hverb args with ⟨e, hrefused⟩ | ⟨bound, found, hbind, hrun⟩
    · rw [hrefused]
      exact ⟨fun _ _ => rfl, nofun⟩
    · obtain ⟨hok, herror⟩ := Builtin.assignsOnly_of_mem_all b hb args bound found c.store hbind
      rw [hrun]
      exact ⟨fun e he => congrArg (fun store => { c with store }) (herror e he),
        fun v hv => congrArg (fun store => { c with store }) (hok v hv)⟩
  obtain ⟨herror, hok⟩ := hcall
  refine ⟨herror, fun v hv => ⟨hok v hv, ?_, fun other hother => ?_⟩, fun hname => ?_⟩
  · rw [hok v hv]
    exact c.store.rest_setAll (b.assigned args v)
  · rw [hok v hv]
    exact c.find?_setAll_of_notMem hother
  · cases hresult : (c.call b.name args).1 with
    | error e => exact herror e hresult
    | ok v =>
      rw [hok v hresult, Builtin.assigned_eq_nil hname]
      rfl

/-- After a step that ordered something, with a deferred greeting. -/
def ordered : Context where
  store := (((Store.empty 0).set "name" (.string "x")).define "greeting" (.string "Hi $name")
    ).setLastResult (.object [("id", .nat 7)])
  verbs := Builtin.registry
  limit := 32

/-- What is extracted is bound to the variable that is named by the second keyword, and to no other;
a path that leads nowhere changes nothing, and neither does a greeting that is not the expected
one. -/
theorem call_frame_ordered :
    ordered.IsCallFree ∧
      (ordered.call "DyJsonData" ⟨[], [("path", .string "id"), ("name", .string "order")]⟩).2 =
        ordered.setAll [("order", .nat 7)] ∧
      (ordered.call "DyJsonData" ⟨[.string "order", .string "ids"], []⟩).2 = ordered ∧
      (ordered.call "VerifyVar" ⟨[.string "greeting", .string "Hi y"], []⟩).2 = ordered := by
  have hfree : ordered.IsCallFree := by
    rintro name text t ⟨v, hfind, hmem⟩ ht
    have hall : ∀ entry ∈ ordered.store.values, ∀ text ∈ entry.2.texts,
        (Template.parse 32 text).toOption.any Template.hasCall = false := by decide +kernel
    have hcall := hall _ (Dict.mem_of_get? (Store.find?_eq_some_iff.mp hfind).1) text hmem
    rw [show Template.parse 32 text = .ok t from ht] at hcall
    exact hcall
  have hextract := call_frame hfree (b := Builtin.all[4]) (List.getElem_mem _) rfl
  have hverify := call_frame hfree (b := Builtin.all[6]) (List.getElem_mem _) rfl
  have hfound : (ordered.call "DyJsonData"
      ⟨[], [("path", .string "id"), ("name", .string "order")]⟩).1 = .ok (.nat 7) := by cbv
  have hmissing : (ordered.call "DyJsonData" ⟨[.string "order", .string "ids"], []⟩).1 =
      .error (.functionFailed "DyJsonData" "path 'ids' not found in step result") := by cbv
  exact ⟨hfree, ((hextract _).2.1 _ hfound).1, (hextract _).1 _ hmissing,
    (hverify _).2.2 (by decide)⟩

end Context

end Casebook
