import Casebook.Proofs.Composition.Recovery
import Casebook.Proofs.Fragment.Bodies

/-!
# Merging

Merging takes the fields that an api fragment declares from the fragment, with its parameters
replaced, and everything else from the case. The fields are read before the case is looked at, so
whether they can be read is a matter of the reference alone; and which of them there are is a matter
of the fragment alone, as `Fragment.IsApi.isRead_of_applyToValue` says of every fragment that was loaded.
-/

namespace Casebook

open Computation

/-! ## Fields laid over a case -/

namespace Fragment

/-- How errors name a fragment. -/
def location (f : Fragment) : String :=
  s!"{f.path} api '{f.head.name}'"

section

variable (f : Fragment)

/-- The list that a field of a case becomes: what the declared value is read as once parameters are
replaced, or the list it was if nothing is declared. -/
def laid {α : Type} (mapping : Dict Substitution) (name : String)
    (read : Value → Except Error (List α)) (own : List α) : Except Error (List α) :=
  match f.declared? name with
  | some v => read (Substitution.applyToValue mapping v)
  | none => .ok own

/-- A case with exactly the declared fields of a fragment laid over it. -/
structure LaidOver (mapping : Dict Substitution) (limit : ℕ) (base merged : Case) : Prop where
  id : merged.id = base.id
  desc : merged.desc = base.desc
  responsible : merged.responsible = base.responsible
  tester : merged.tester = base.tester
  globals : merged.globals = base.globals
  patterns : merged.patterns = base.patterns
  preCommand : f.laid mapping "pre_command" (ExecutionFields.actionsOf f.location limit)
    base.preCommand = .ok merged.preCommand
  steps : f.laid mapping "steps" (ExecutionFields.stepsOf f.location) base.steps =
    .ok merged.steps
  postCommand : f.laid mapping "post_command" (ExecutionFields.actionsOf f.location limit)
    base.postCommand = .ok merged.postCommand
  verify : f.laid mapping "verify" (ExecutionFields.actionsOf f.location limit) base.verify =
    .ok merged.verify

/-- Two cases agree on every field that a fragment declares. -/
structure Agree (c c' : Case) : Prop where
  preCommand : (f.declared? "pre_command").isSome → c.preCommand = c'.preCommand
  steps : (f.declared? "steps").isSome → c.steps = c'.steps
  postCommand : (f.declared? "post_command").isSome → c.postCommand = c'.postCommand
  verify : (f.declared? "verify").isSome → c.verify = c'.verify

end

variable {f : Fragment} {mapping : Dict Substitution} {limit : ℕ}

theorem laid_of_mapM {α : Type} {name : String} {read : Value → Except Error (List α)}
    {result : Option (List α)}
    (h : ((f.declared? name).map (Substitution.applyToValue mapping)).mapM read = .ok result)
    (own : List α) : f.laid mapping name read own = .ok (result.getD own) := by
  unfold laid
  cases hdeclared : f.declared? name with
  | none =>
    rw [hdeclared] at h
    cases h
    rfl
  | some v =>
    rw [hdeclared, Option.map_some, Option.mapM_some] at h
    obtain ⟨list, hlist, rfl⟩ := map_eq_ok.mp h
    exact hlist

/-- A declared field does not depend on the case. -/
theorem laid_eq_of_isSome {α : Type} {name : String} (h : (f.declared? name).isSome)
    (read : Value → Except Error (List α)) (own own' : List α) :
    f.laid mapping name read own = f.laid mapping name read own' := by
  obtain ⟨v, hv⟩ := Option.isSome_iff_exists.mp h
  rw [laid, laid, hv]

theorem laidOver_overlay {fields : ExecutionFields}
    (h : ExecutionFields.IsRead f.location limit
      (fun name => (f.declared? name).map (Substitution.applyToValue mapping)) fields)
    (base : Case) : f.LaidOver mapping limit base (fields.overlay base) where
  id := rfl
  desc := rfl
  responsible := rfl
  tester := rfl
  globals := rfl
  patterns := rfl
  preCommand := laid_of_mapM h.preCommand base.preCommand
  steps := laid_of_mapM h.steps base.steps
  postCommand := laid_of_mapM h.postCommand base.postCommand
  verify := laid_of_mapM h.verify base.verify

theorem LaidOver.agree {base base' merged merged' : Case}
    (h : f.LaidOver mapping limit base merged) (h' : f.LaidOver mapping limit base' merged') :
    f.Agree merged merged' := by
  -- Both lists are what the same declared value is read as.
  have hlaid {α : Type} {name : String} {read : Value → Except Error (List α)}
      {own own' list list' : List α} (hlist : f.laid mapping name read own = .ok list)
      (hlist' : f.laid mapping name read own' = .ok list') (hsome : (f.declared? name).isSome) :
      list = list' := by
    rw [laid_eq_of_isSome hsome read own own', hlist'] at hlist
    exact (Except.ok.inj hlist).symm
  exact ⟨hlaid h.preCommand h'.preCommand, hlaid h.steps h'.steps,
    hlaid h.postCommand h'.postCommand, hlaid h.verify h'.verify⟩

end Fragment

/-- What is there already can be laid over again. -/
theorem ExecutionFields.overlay_overlay (fields : ExecutionFields) (base : Case) :
    fields.overlay (fields.overlay base) = fields.overlay base := by
  have hgetD {α : Type} (o : Option α) (own : α) : o.getD (o.getD own) = o.getD own := by
    cases o <;> rfl
  simp only [overlay, hgetD]

/-! ## Merging again -/

namespace Composer

variable {files : Files} {c : Composer}

theorem index_indexed (c : Composer) (kind : FragmentKind) :
    (c.indexed files kind).index files kind = c.index files kind := by
  cases hindex : c.index files kind with
  | error e => rw [indexed_of_error hindex, hindex]
  | ok l => rw [index, library?_indexed hindex]

theorem indexed_indexed (c : Composer) (kind : FragmentKind) :
    (c.indexed files kind).indexed files kind = c.indexed files kind := by
  cases hindex : c.index files kind with
  | error e => rw [indexed_of_error hindex, indexed_of_error hindex]
  | ok l =>
    rw [indexed_of_ok ((index_indexed c kind).trans hindex),
      keep_of_library? (library?_indexed hindex)]

/-- What a composer finds for a reference it finds again. -/
theorem fieldsFor_indexed (c : Composer) (r : Reference) :
    (c.indexed files .api).fieldsFor files r = c.fieldsFor files r := by
  rw [fieldsFor, fieldsFor, lookup, lookup, index_indexed, folder_indexed, layout_indexed]

end Composer

/-! ## Merging fragments that were loaded -/

namespace Composition

open Composer

variable {history : List Files} {area : String} {layout : Layout} {files : Files} {s : Composition}

/-- What is found under a name was loaded. -/
theorem Located.isApi_of_lookup {c : Composer} (h : Located history area layout c) {name : String}
    {f : Fragment} (hlookup : c.lookup files .api name = .ok f) : f.IsApi := by
  obtain ⟨l, hl, hlookup⟩ := bind_eq_ok.mp hlookup
  split at hlookup
  · next f' hget =>
    cases hlookup
    -- A library that is kept was read at some time, and one that is not is read now.
    obtain ⟨fs, hread⟩ : ∃ fs, Expansion.library fs area layout .api = .ok l := by
      cases hkept : c.library? .api with
      | some l' =>
        obtain ⟨fs, -, hread⟩ := h.library .api l' hkept
        rw [index, hkept] at hl
        cases hl
        exact ⟨fs, hread⟩
      | none =>
        rw [index, hkept, folder, h.area_eq, h.layout_eq] at hl
        exact ⟨files, hl⟩
    obtain ⟨-, path, document, hdocument, hmem⟩ := Library.mem_of_get?_read hread hget
    exact Fragment.isApi_of_readApis hdocument hmem
  · cases hlookup

/-- The fields that are found for a reference are those that the fragment declares. -/
theorem Located.isRead_of_fieldsFor {c : Composer} (h : Located history area layout c)
    {r : Reference} {fields : ExecutionFields} (hfields : c.fieldsFor files r = .ok fields) :
    ∃ f mapping, c.lookup files .api r.name = .ok f ∧ f.head.bind r = .ok mapping ∧
      ExecutionFields.IsRead f.location layout.depth
        (fun name => (f.declared? name).map (Substitution.applyToValue mapping)) fields := by
  obtain ⟨f, hlookup, hfields⟩ := bind_eq_ok.mp hfields
  obtain ⟨body, hbody, hfields⟩ := bind_eq_ok.mp hfields
  obtain ⟨mapping, hmapping, rfl⟩ := map_eq_ok.mp hbody
  rw [h.layout_eq] at hfields
  exact ⟨f, mapping, hlookup, hmapping, (h.isApi_of_lookup hlookup).isRead_of_applyToValue hfields⟩

/-- The composer may be at work on a document, too, as long as all fragments that it keeps were read
from files. -/
theorem merges_of_located (hs : Located history area layout s.composer) {base merged : Case}
    {r : Reference} {s' : Composition}
    (h : exec (mergeApi files base r) s = (.ok merged, s')) :
    ∃ f mapping, s.composer.lookup files .api r.name = .ok f ∧ f.head.bind r = .ok mapping ∧
      f.LaidOver mapping layout.depth base merged ∧
      exec (mergeApi files merged r) s' = (.ok merged, s') ∧
      ∀ base', ∃ merged', exec (mergeApi files base' r) s = (.ok merged', s') ∧
        f.LaidOver mapping layout.depth base' merged' ∧ f.Agree merged merged' := by
  rw [exec_mergeApi] at h
  obtain ⟨hmerged, rfl⟩ := Prod.mk.inj h
  obtain ⟨fields, hfields, rfl⟩ := map_eq_ok.mp hmerged
  obtain ⟨f, mapping, hlookup, hmapping, hread⟩ := hs.isRead_of_fieldsFor hfields
  refine ⟨f, mapping, hlookup, hmapping, Fragment.laidOver_overlay hread base, ?_, fun base' => ?_⟩
  · -- By now the library is kept, so the same fields are found and laid over themselves.
    rw [exec_mergeApi, fieldsFor_indexed, indexed_indexed, hfields, Except.map,
      ExecutionFields.overlay_overlay]
  · -- The fields were found without the case, so they can be laid over any.
    have hbase' := Fragment.laidOver_overlay hread base'
    refine ⟨fields.overlay base', ?_, hbase', (Fragment.laidOver_overlay hread base).agree hbase'⟩
    rw [exec_mergeApi, hfields]
    rfl

/-- Whatever a composer was asked for before, when it can merge an api fragment into a case, it lays
exactly those fields over the case that the body of the fragment declares with another value than
null; everything else is as it was in the case. They are the same fields for all references by the
name of the fragment, whatever their arguments are. Merging the same reference again changes nothing.
With any other case in the place of the first it can be merged as well, and the two agree on all that
the fragment declares. -/
theorem merges_of_served (area : String) (layout : Layout) (demands : List Demand)
    {files : Files} {base merged : Case} {r : Reference} {s' : Composition}
    (h : exec (mergeApi files base r) (served area layout demands) = (.ok merged, s')) :
    ∃ f mapping, (served area layout demands).composer.lookup files .api r.name = .ok f ∧
      f.head.bind r = .ok mapping ∧ f.LaidOver mapping layout.depth base merged ∧
      (∀ base' r' merged' s'', r'.name = r.name →
        exec (mergeApi files base' r') (served area layout demands) = (.ok merged', s'') →
        ∃ mapping', f.head.bind r' = .ok mapping' ∧
          f.LaidOver mapping' layout.depth base' merged') ∧
      exec (mergeApi files merged r) s' = (.ok merged, s') ∧
      ∀ base', ∃ merged',
        exec (mergeApi files base' r) (served area layout demands) = (.ok merged', s') ∧
        f.LaidOver mapping layout.depth base' merged' ∧ f.Agree merged merged' := by
  have hlocated := (intact_served area layout demands).located
  obtain ⟨f, mapping, hlookup, hmapping, hlaid, hagain, hother⟩ := merges_of_located hlocated h
  refine ⟨f, mapping, hlookup, hmapping, hlaid, ?_, hagain, hother⟩
  intro base' r' merged' s'' hname h'
  obtain ⟨f', mapping', hlookup', hmapping', hlaid', -⟩ := merges_of_located hlocated h'
  -- A fragment is found by its name, so it is the same.
  rw [hname, hlookup] at hlookup'
  cases hlookup'
  exact ⟨mapping', hmapping', hlaid'⟩

/-- An api fragment that prepares and says nothing about how to verify. -/
def greetingFiles : Files where
  here := []
  root := .folder [("dependencies", .folder [("api", .folder [("greet.yaml", .file (some
    "- api:\n    def: greet($name)\n    pre_command:\n      - Echo($name)\n    verify:\n"))])])]

/-- A case with an action of its own wherever there may be one. -/
def politeCase : Case :=
  let own (source : String) : List Action := [⟨source, source, []⟩]
  { Case.blank "A" "d" with preCommand := own "Knock", verify := own "Listen" }

theorem merges_of_served_greeting :
    let r : Reference := ⟨.api, ⟨"greet", [.literal none (.string "Ada") "Ada"]⟩, "greet(Ada)"⟩
    let s := served "dependencies" .standard []
    ∃ merged s', exec (mergeApi greetingFiles politeCase r) s = (.ok merged, s') ∧
      merged.preCommand.map Action.source = ["Echo(Ada)"] ∧
      merged.verify.map Action.source = ["Listen"] ∧
      exec (mergeApi greetingFiles merged r) s' = (.ok merged, s') := by
  intro r s
  have hsources : (exec (mergeApi greetingFiles politeCase r) s).1.map
      (fun c => (c.preCommand.map Action.source, c.verify.map Action.source)) =
        .ok (["Echo(Ada)"], ["Listen"]) := by decide +kernel
  obtain ⟨merged, hmerged, heq⟩ := map_eq_ok.mp hsources
  obtain ⟨hpre, hverify⟩ := Prod.mk.inj heq
  have h : exec (mergeApi greetingFiles politeCase r) s =
      (.ok merged, (exec (mergeApi greetingFiles politeCase r) s).2) := Prod.ext hmerged rfl
  obtain ⟨f, mapping, -, -, -, -, hagain, -⟩ := merges_of_served "dependencies" .standard [] h
  exact ⟨merged, _, h, hpre, hverify, hagain⟩

end Composition

end Casebook
