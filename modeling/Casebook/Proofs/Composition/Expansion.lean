import Casebook.Composition.Composer
import Casebook.Proofs.Computation
import Mathlib.Data.List.Basic

/-!
# Expansion without a composer

What a document stands for, said without libraries that are read once and without a cache: every
fragment is looked up in the files when it is referred to, and every suite is expanded each time it
is met. `ofEntries` is that recursion, with the check that no suite is inside of itself; it ends
because each suite on the way takes its name from the finite number of names in the library.

`Denotes` says the same without the check. A document denotes at most one list of cases, and what
the recursion gives is what the document denotes.
-/

namespace Casebook.Expansion

open Casebook.Computation

/-! ## Arguments of references -/

/-- The arguments of a reference as they were written: keywords, texts without quotes and texts with
quotes. -/
def arguments (r : Reference) : List (Option String × String × String) :=
  r.call.args.map fun a => (a.key, a.source, a.raw)

/-- Binding looks at nothing but the arguments as they were written. -/
theorem bind_eq (h : FragmentHead) (r : Reference) :
    h.bind r =
      if (arguments r).length ≠ h.params.length then
        .error (.argumentMismatch h.name h.params.length (arguments r).length)
      else .ok (Dict.ofList (((h.params.zip (arguments r)).filter fun p => p.2.2.2 ≠ "$" ++ p.1).map
        fun p => (p.1, ⟨p.2.2.1, p.2.2.2⟩))) := by
  simp only [FragmentHead.bind, arguments, List.length_map, List.zip_map_right, List.filter_map,
    List.map_map]
  rfl

/-- References with equal keys and equal arguments have equal names. -/
theorem name_eq_of_key_eq {r r' : Reference} (hkey : r.key = r'.key)
    (hargs : arguments r = arguments r') : r.name = r'.name := by
  -- What the key has of the arguments is a function of them, so the rest of it is the name.
  have htext (r : Reference) : r.call.args.map Reference.argumentText =
      (arguments r).map fun a => a.1.elim a.2.2 fun key => s!"{key}={a.2.2}" := by
    rw [arguments, List.map_map]
    refine List.map_congr_left fun a _ => ?_
    rw [Reference.argumentText, Function.comp_apply]
    cases a.key <;> rfl
  simp only [Reference.key, htext, hargs, String.append_left_inj] at hkey
  exact hkey

/-! ## The recursion -/

section

variable (files : Files) (area : String) (layout : Layout)

/-- The fragments of a kind in a dependency area. -/
def library (kind : FragmentKind) : Except Error Library :=
  Library.read files kind layout.depth (layout.folder kind area)

/-- The fragment of a name in a dependency area. -/
def fragment (kind : FragmentKind) (name : String) : Except Error Fragment := do
  match (← library files area layout kind).get? name with
  | some f => return f
  | none => throw (.unresolved kind.name name [layout.folder kind area])

/-- A case with the execution fields of the api fragment that a reference names. -/
def merged (base : Case) (r : Reference) : Except Error Case := do
  let f ← fragment files area layout .api r.name
  let body ← f.instantiate r
  let fields ← ExecutionFields.ofApiBody s!"{f.path} api '{f.head.name}'" layout.depth body
  return fields.overlay base

/-- The document of the suite that a reference names, its parameters replaced. -/
def document (r : Reference) : Except Error Document := do
  let f ← fragment files area layout .suite r.name
  let body ← f.instantiate r
  Document.parse f.path layout.depth body

/-- The cases of entries, one after another, given the cases of suites. -/
def ofEntries (suite : Reference → Except Error (List Case)) : List Entry → Except Error (List Case)
  | [] => return []
  | .case c :: rest => return c :: (← ofEntries suite rest)
  | .api base r :: rest => do
    let c ← merged files area layout base r
    return c :: (← ofEntries suite rest)
  | .suite r :: rest => do
    let cases ← suite r
    return cases ++ (← ofEntries suite rest)

/-- The names of suites that are not on a path. -/
def freeNames (path : List String) : List String :=
  match library files area layout .suite with
  | .ok l => l.keys.filter (· ∉ path)
  | .error _ => []

end

section

variable {files : Files} {area : String} {layout : Layout}

theorem exists_library_of_fragment {kind : FragmentKind} {name : String} {f : Fragment}
    (h : fragment files area layout kind name = .ok f) :
    ∃ l, library files area layout kind = .ok l ∧ l.get? name = some f := by
  obtain ⟨l, hl, h⟩ := bind_eq_ok.mp h
  cases hf : l.get? name with
  | none => rw [hf] at h; cases h
  | some f' => rw [hf] at h; cases h; exact ⟨l, hl, hf⟩

theorem fragment_of_document {r : Reference} {d : Document}
    (h : document files area layout r = .ok d) :
    ∃ f, fragment files area layout .suite r.name = .ok f := by
  obtain ⟨f, hf, -⟩ := bind_eq_ok.mp h
  exact ⟨f, hf⟩

/-- A suite that is expanded takes its name from the free ones. -/
theorem length_filter_push_lt {l : Library} {path : List String} {name : String} {f : Fragment}
    (hpath : name ∉ path) (hget : l.get? name = some f) :
    (l.keys.filter (· ∉ path ++ [name])).length < (l.keys.filter (· ∉ path)).length := by
  have hmem : name ∈ l.keys.filter (· ∉ path) :=
    List.mem_filter.mpr ⟨Dict.mem_keys_of_get? hget, by simpa using hpath⟩
  -- What is free behind the name is what was free before, less the name.
  have hfewer : l.keys.filter (· ∉ path ++ [name]) =
      (l.keys.filter (· ∉ path)).filter (· ≠ name) := by
    rw [List.filter_filter]
    refine List.filter_congr fun other _ => ?_
    simp [Bool.and_comm]
  rw [hfewer, List.length_filter_lt_length_iff_exists]
  exact ⟨name, hmem, by simp⟩

theorem length_freeNames_lt {path : List String} {name : String} {f : Fragment}
    (hpath : name ∉ path) (h : fragment files area layout .suite name = .ok f) :
    (freeNames files area layout (path ++ [name])).length <
      (freeNames files area layout path).length := by
  obtain ⟨l, hl, hget⟩ := exists_library_of_fragment h
  simp only [freeNames, hl]
  exact length_filter_push_lt hpath hget

/-- All suites are free where none is being expanded. -/
theorem length_freeNames_nil {l : Library} (h : library files area layout .suite = .ok l) :
    (freeNames files area layout []).length = l.length := by
  simp [freeNames, h, Dict.keys]

variable (files area layout)

/-- The cases of the suite that a reference names, inside those on a path. -/
def ofSuite (path : List String) (r : Reference) : Except Error (List Case) :=
  if hpath : r.name ∈ path then .error (Composer.chain path r)
  else
    match hd : document files area layout r with
    | .error e => .error e
    | .ok d =>
      have := length_freeNames_lt hpath (fragment_of_document hd).choose_spec
      ofEntries files area layout (ofSuite (path ++ [r.name])) d.entries
termination_by (freeNames files area layout path).length

/-! ## What entries denote -/

/-- The cases that entries stand for, whatever path they are met on. -/
inductive Denotes : List Entry → List Case → Prop where
  | nil : Denotes [] []
  | case {c : Case} {rest : List Entry} {cases : List Case} (more : Denotes rest cases) :
      Denotes (.case c :: rest) (c :: cases)
  | api {base c : Case} {r : Reference} {rest : List Entry} {cases : List Case}
      (first : merged files area layout base r = .ok c) (more : Denotes rest cases) :
      Denotes (.api base r :: rest) (c :: cases)
  | suite {r : Reference} {d : Document} {rest : List Entry} {inner cases : List Case}
      (opened : document files area layout r = .ok d) (first : Denotes d.entries inner)
      (more : Denotes rest cases) : Denotes (.suite r :: rest) (inner ++ cases)

variable {files area layout}

/-- A suite denotes what the entries of its document denote. -/
theorem denotes_suite_iff {r : Reference} {cases : List Case} :
    Denotes files area layout [.suite r] cases ↔
      ∃ d, document files area layout r = .ok d ∧ Denotes files area layout d.entries cases := by
  constructor
  · intro h
    cases h with
    | suite hd hinner hrest =>
      cases hrest
      exact ⟨_, hd, by rwa [List.append_nil]⟩
  · intro h'
    obtain ⟨d, hd, h⟩ := h'
    rw [← List.append_nil cases]
    exact .suite hd h .nil

/-- Entries denote at most one list of cases. -/
theorem Denotes.unique {entries : List Entry} {cases cases' : List Case}
    (h : Denotes files area layout entries cases) (h' : Denotes files area layout entries cases') :
    cases = cases' := by
  induction h generalizing cases' with
  | nil => cases h'; rfl
  | case _ ih =>
    cases h' with
    | case more => rw [ih more]
  | api hc _ ih =>
    cases h' with
    | api hc' more =>
      obtain rfl := Except.ok.inj (hc.symm.trans hc')
      rw [ih more]
  | suite hd _ _ ihfirst ihmore =>
    cases h' with
    | suite hd' first more =>
      obtain rfl := Except.ok.inj (hd.symm.trans hd')
      rw [ihfirst first, ihmore more]

/-- Entries one after another denote their cases one after another. -/
theorem Denotes.append {entries entries' : List Entry} {cases cases' : List Case}
    (h : Denotes files area layout entries cases)
    (h' : Denotes files area layout entries' cases') :
    Denotes files area layout (entries ++ entries') (cases ++ cases') := by
  induction h with
  | nil => exact h'
  | case _ ih => exact .case ih
  | api hc _ ih => exact .api hc ih
  | suite hd hinner _ _ ih =>
    rw [List.append_assoc]
    exact .suite hd hinner ih

/-- Two references with the same name and arguments stand for the same document. -/
theorem document_congr {r r' : Reference} (hname : r.name = r'.name)
    (hargs : arguments r = arguments r') :
    document files area layout r = document files area layout r' := by
  have hbind (h : FragmentHead) : h.bind r = h.bind r' := by
    rw [bind_eq, bind_eq, hargs]
  simp only [document, Fragment.instantiate, hname, hbind]

/-! ## The recursion gives what entries denote -/

theorem ofSuite_eq_ok {path : List String} {r : Reference} {cases : List Case} :
    ofSuite files area layout path r = .ok cases ↔
      r.name ∉ path ∧ ∃ d, document files area layout r = .ok d ∧
        ofEntries files area layout (ofSuite files area layout (path ++ [r.name])) d.entries =
          .ok cases := by
  rw [ofSuite]
  by_cases hpath : r.name ∈ path
  · simp [hpath]
  · rw [dif_neg hpath]
    split
    · next e hd => simp [hd]
    · next d hd => simp [hd, hpath]

theorem denotes_of_ofEntries {suite : Reference → Except Error (List Case)}
    (hsuite : ∀ r cases, suite r = .ok cases → Denotes files area layout [.suite r] cases)
    {entries : List Entry} {cases : List Case}
    (h : ofEntries files area layout suite entries = .ok cases) :
    Denotes files area layout entries cases := by
  induction entries generalizing cases with
  | nil => cases h; exact .nil
  | cons entry rest ih =>
    cases entry with
    | case c =>
      obtain ⟨more, hmore, h⟩ := bind_eq_ok.mp h
      cases h
      exact .case (ih hmore)
    | api base r =>
      obtain ⟨c, hc, h⟩ := bind_eq_ok.mp h
      obtain ⟨more, hmore, h⟩ := bind_eq_ok.mp h
      cases h
      exact .api hc (ih hmore)
    | suite r =>
      obtain ⟨first, hfirst, h⟩ := bind_eq_ok.mp h
      obtain ⟨more, hmore, h⟩ := bind_eq_ok.mp h
      cases h
      obtain ⟨d, hd, hinner⟩ := denotes_suite_iff.mp (hsuite r first hfirst)
      exact .suite hd hinner (ih hmore)

/-- The cases of entries are those of the first one before those of the rest. -/
theorem ofEntries_cons_eq_ok {suite : Reference → Except Error (List Case)} {entry : Entry}
    {rest : List Entry} {cases : List Case} :
    ofEntries files area layout suite (entry :: rest) = .ok cases ↔
      ∃ first more, ofEntries files area layout suite [entry] = .ok first ∧
        ofEntries files area layout suite rest = .ok more ∧ first ++ more = cases := by
  cases entry <;> simp [ofEntries, bind_eq_ok, pure, Except.pure]

/-- The induction is on the names that are still free. -/
theorem denotes_of_ofSuite {path : List String} {r : Reference} {cases : List Case}
    (h : ofSuite files area layout path r = .ok cases) :
    Denotes files area layout [.suite r] cases := by
  induction hn : (freeNames files area layout path).length using Nat.strongRecOn
    generalizing path r cases with
  | ind n ih =>
    obtain ⟨hpath, d, hd, h⟩ := ofSuite_eq_ok.mp h
    obtain ⟨f, hf⟩ := fragment_of_document hd
    have hlt := length_freeNames_lt hpath hf
    refine denotes_suite_iff.mpr ⟨d, hd, denotes_of_ofEntries (fun r' cases' h' => ?_) h⟩
    exact ih _ (hn ▸ hlt) h' rfl

end

end Casebook.Expansion
