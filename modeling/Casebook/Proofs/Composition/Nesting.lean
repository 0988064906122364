import Casebook.Proofs.Composition.History
import Casebook.Proofs.Composition.ReadingErrors
import Mathlib.Data.List.Chain
import Mathlib.Data.List.Nodup
import Mathlib.Data.List.Perm.Subperm
import Mathlib.Logic.Function.Iterate

/-!
# Suites inside of suites

References build the arguments of other references, so there is no end to the references that a
finite number of suites can lead to. What bounds their expansion is the names alone: a suite is
expanded only while none of its name is, so the names that are still free become fewer with each
suite inside of another.

`Inside` is the invariant of that: the journal says which suites are being expanded, each of them a
suite of the composer, none of them twice. From it follow how deep suites nest at every moment; that
the recursion, with no bound on its depth, does what the composer does; and what the error of a
suite inside of itself lists.
-/

namespace Casebook.Composition

open Casebook.Computation Composer

/-! ## The suites of a composer -/

/-- The suites of a composer: those it read before, or else those beneath its folder. -/
def suiteIndex (files : Files) (c : Composer) : Except Error Library :=
  match c.suites with
  | some l => .ok l
  | none => Library.read files .suite c.layout.depth (c.folder .suite)

/-- The suites of a composer, which are none if they cannot be read. -/
def suitesOf (files : Files) (c : Composer) : Library :=
  match suiteIndex files c with
  | .ok l => l
  | .error _ => []

/-- The document of the suite that one reference names, its parameters replaced, refers to another
suite. -/
def Refers (files : Files) (c : Composer) (r r' : Reference) : Prop :=
  ∃ f body d, (suitesOf files c).get? r.name = some f ∧ f.instantiate r = .ok body ∧
    Document.parse f.path c.layout.depth body = .ok d ∧ Entry.suite r' ∈ d.entries

/-- Each of these references leads to the next, and the last one names a suite that one of those
before it names, which have different names. -/
structure IsCircle (files : Files) (c : Composer) (circle : List Reference) : Prop where
  refers : circle.IsChain (Refers files c)
  closes : ∃ before last, circle = before ++ [last] ∧ last.name ∈ before.map Reference.name ∧
    (before.map Reference.name).Nodup

/-! ## The suites that are being expanded -/

/-- The suites that are being expanded after what a journal tells, outermost first. -/
def openSuites : List SuiteEvent → List String
  | [] => []
  | .met _ :: before => openSuites before
  | .begun stack :: _ => stack
  | .ended :: before => (openSuites before).dropLast

/-- How many suites were begun and did not end, as a journal tells. -/
def openings : List SuiteEvent → Int
  | [] => 0
  | .met _ :: before => openings before
  | .begun _ :: before => openings before + 1
  | .ended :: before => openings before - 1

/-- A suite that is begun is one of some suites and is put inside of those that are being expanded,
among which it is not yet; and only what is being expanded ends. -/
inductive Orderly (l : Library) : List SuiteEvent → Prop where
  | nil : Orderly l []
  | met {r : Reference} {journal : List SuiteEvent} (before : Orderly l journal) :
      Orderly l (.met r :: journal)
  | begun {name : String} {journal : List SuiteEvent} (before : Orderly l journal)
      (known : (l.get? name).isSome) (fresh : name ∉ openSuites journal) :
      Orderly l (.begun (openSuites journal ++ [name]) :: journal)
  | ended {journal : List SuiteEvent} (before : Orderly l journal)
      (some : openSuites journal ≠ []) : Orderly l (.ended :: journal)

namespace Orderly

variable {l : Library} {journal moment : List SuiteEvent}

/-- What is orderly was so at every moment. -/
theorem of_suffix (h : Orderly l journal) (hmoment : moment <:+ journal) : Orderly l moment := by
  induction h with
  | nil =>
    rw [List.suffix_nil.mp hmoment]
    exact .nil
  | met before ih =>
    rcases List.suffix_cons_iff.mp hmoment with rfl | hmoment
    · exact .met before
    · exact ih hmoment
  | begun before known fresh ih =>
    rcases List.suffix_cons_iff.mp hmoment with rfl | hmoment
    · exact .begun before known fresh
    · exact ih hmoment
  | ended before some ih =>
    rcases List.suffix_cons_iff.mp hmoment with rfl | hmoment
    · exact .ended before some
    · exact ih hmoment

theorem nodup (h : Orderly l journal) : (openSuites journal).Nodup := by
  induction h with
  | nil => exact List.nodup_nil
  | met _ ih => exact ih
  | begun _ _ fresh ih =>
    rw [openSuites, ← List.concat_eq_append]
    exact (List.nodup_concat _ _).mpr ⟨fresh, ih⟩
  | ended _ _ ih => exact ih.sublist (List.dropLast_sublist _)

theorem get?_isSome (h : Orderly l journal) :
    ∀ name ∈ openSuites journal, (l.get? name).isSome := by
  induction h with
  | nil => exact fun name hname => absurd hname List.not_mem_nil
  | met _ ih => exact ih
  | begun _ known _ ih =>
    intro name hname
    rcases List.mem_append.mp hname with hname | hname
    · exact ih name hname
    · rwa [List.mem_singleton.mp hname]
  | ended _ _ ih => exact fun name hname => ih name ((List.dropLast_subset _) hname)

theorem openings_eq (h : Orderly l journal) : openings journal = (openSuites journal).length := by
  induction h with
  | nil => rfl
  | met _ ih => exact ih
  | begun _ _ _ ih => simp [openings, openSuites, ih]
  | @ended journal _ some ih =>
    have hlength : 0 < (openSuites journal).length := List.length_pos_of_ne_nil some
    rw [openings, openSuites, List.length_dropLast, ih]
    omega

/-- There are no more suites inside of each other than there are suites. -/
theorem length_le (h : Orderly l journal) : (openSuites journal).length ≤ l.length := by
  have hsubset : openSuites journal ⊆ l.keys := fun name hname => by
    obtain ⟨f, hf⟩ := Option.isSome_iff_exists.mp (h.get?_isSome name hname)
    exact Dict.mem_keys_of_get? hf
  have hle := (List.subperm_of_subset h.nodup hsubset).length_le
  rwa [Dict.keys, List.length_map] at hle

end Orderly

/-! ## The recursion without a bound -/

section Recursion

variable (files : Files)

/-- Go into the suite that a reference names, its document at hand, and keep the expansion. -/
def expandInside (inner : List String → Reference → Composing (List Case)) (stack : List String)
    (r : Reference) (f : Fragment) (body : Value) : Composing (List Case) := do
  let cases ← Composing.within (stack ++ [r.name])
    (expandFresh files (inner (stack ++ [r.name])) f body)
  Composing.update fun c => { c with expanded := c.expanded.insert r.key cases }
  return cases

/-- Check a reference to a suite and look its expansion up; a suite that was not expanded yet is gone
into. -/
def expandBy (inside : List String → Reference → Fragment → Value → Composing (List Case))
    (stack : List String) (r : Reference) : Composing (List Case) := do
  Composing.note (.met r)
  if r.name ∈ stack then throw (chain stack r)
  let f ← Composer.fragment files .suite r.name
  let body ← Composing.lift (f.instantiate r)
  match (← Composing.composer).expanded.get? r.key with
  | some cases => return cases
  | none => inside stack r f body

/-- The cases of a suite, given the cases of the suites inside of it: the recursion with no bound on
its depth, unfolded once. -/
def expandOver (inner : List String → Reference → Composing (List Case)) :
    List String → Reference → Composing (List Case) :=
  expandBy files (expandInside files inner)

/-- The testset that a document is composed into, given the cases of the suites it refers to. -/
def composingOver (suite : List String → Reference → Composing (List Case)) (d : Document) :
    Composing TestSet := do
  let cases ← expandEntries files (fun r => do let _ ← library files .suite; suite [] r) d.entries
  Composing.lift (Case.validate cases)
  return { path := d.path, project := d.project, cases }

theorem expandSuite_eq_expandBy (room : ℕ) (stack : List String) (r : Reference) :
    expandSuite files room stack r = expandBy files (expandUncached files room) stack r := by
  rw [expandSuite_eq]
  rfl

theorem expandUncached_succ (room : ℕ) (stack : List String) (r : Reference) (f : Fragment)
    (body : Value) :
    expandUncached files (room + 1) stack r f body =
      expandInside files (expandSuite files room) stack r f body :=
  rfl

end Recursion

/-! ## The invariant -/

section Invariant

variable {files : Files} {c : Composer}

/-- The composer has the suites and the layout of another one, and these suites are being expanded,
after an orderly journal. -/
structure Inside (files : Files) (c : Composer) (stack : List String) (s : Composition) : Prop where
  index : suiteIndex files s.composer = suiteIndex files c
  layout : s.composer.layout = c.layout
  stack : openSuites s.journal = stack
  orderly : Orderly (suitesOf files c) s.journal

theorem suitesOf_eq_of_index {l : Library} (h : suiteIndex files c = .ok l) :
    suitesOf files c = l := by
  rw [suitesOf, h]

theorem inside_nil (files : Files) (c : Composer) : Inside files c [] ⟨c, []⟩ where
  index := rfl
  layout := rfl
  stack := rfl
  orderly := .nil

variable {stack : List String} {s : Composition}

/-- Keeping fragments leaves the suites as they are, if those kept as suites are the suites. -/
theorem Inside.keep (h : Inside files c stack s) {kind : FragmentKind} {l : Library}
    (hl : kind = .suite → suiteIndex files c = .ok l) :
    Inside files c stack { s with composer := s.composer.keep kind l } := by
  cases kind with
  | api => exact ⟨h.index, h.layout, h.stack, h.orderly⟩
  | suite => exact ⟨(hl rfl).symm, h.layout, h.stack, h.orderly⟩

theorem Inside.insert (h : Inside files c stack s) (key : String) (cases : List Case) :
    Inside files c stack { s with
      composer := { s.composer with expanded := s.composer.expanded.insert key cases } } :=
  ⟨h.index, h.layout, h.stack, h.orderly⟩

theorem Inside.met (h : Inside files c stack s) (r : Reference) :
    Inside files c stack { s with journal := .met r :: s.journal } :=
  ⟨h.index, h.layout, h.stack, .met h.orderly⟩

theorem Inside.begun (h : Inside files c stack s) {name : String} {f : Fragment}
    (hknown : (suitesOf files c).get? name = some f) (hfresh : name ∉ stack) :
    Inside files c (stack ++ [name])
      { s with journal := .begun (stack ++ [name]) :: s.journal } := by
  obtain ⟨hindex, hlayout, rfl, horderly⟩ := h
  exact ⟨hindex, hlayout, rfl, .begun horderly (by rw [hknown]; rfl) hfresh⟩

theorem Inside.ended {name : String} (h : Inside files c (stack ++ [name]) s) :
    Inside files c stack { s with journal := .ended :: s.journal } where
  index := h.index
  layout := h.layout
  stack := by rw [openSuites, h.stack, List.dropLast_concat]
  orderly := .ended h.orderly (by simp [h.stack])

end Invariant

/-! ## What keeps the invariant -/

section Rules

variable {α : Type} {I : Composition → Prop} {V : α → Prop} {E : Error → Prop}

theorem keeps_lift (result : Except Error α) :
    Keeps I (result = .ok ·) (result = .error ·) (Composing.lift result) :=
  fun _ hs => ⟨hs, fun _ h => h, fun _ h => h⟩

/-- What is lifted keeps the state, and its errors may be of any kind that theirs are. -/
theorem keeps_lift_of_failsOnly {p : Error → Bool} {result : Except Error α}
    (h : FailsOnly p result) (hE : ∀ e, p e = true → E e) :
    Keeps I (result = .ok ·) E (Composing.lift result) :=
  (keeps_lift result).mono (fun _ h => h) fun e he => hE e (h e he)

theorem keeps_composer {files : Files} {c : Composer} {stack : List String} :
    Keeps (Inside files c stack)
      (fun c' => suiteIndex files c' = suiteIndex files c ∧ c'.layout = c.layout) E
      Composing.composer := by
  intro s hs
  refine ⟨hs, fun c' hc' => ?_, nofun⟩
  cases hc'
  exact ⟨hs.index, hs.layout⟩

theorem keeps_within {files : Files} {c : Composer} {stack : List String} {name : String}
    {f : Fragment} {m : Composing α} (hknown : (suitesOf files c).get? name = some f)
    (hfresh : name ∉ stack) (hm : Keeps (Inside files c (stack ++ [name])) V E m) :
    Keeps (Inside files c stack) V E (Composing.within (stack ++ [name]) m) := by
  intro s hs
  obtain ⟨hs', hresult⟩ := hm _ (hs.begun hknown hfresh)
  exact ⟨hs'.ended, hresult⟩

theorem agreesOn_within {files : Files} {c : Composer} {stack : List String} {name : String}
    {f : Fragment} {m m' : Composing α} (hknown : (suitesOf files c).get? name = some f)
    (hfresh : name ∉ stack) (h : AgreesOn (Inside files c (stack ++ [name])) m m') :
    AgreesOn (Inside files c stack) (Composing.within (stack ++ [name]) m)
      (Composing.within (stack ++ [name]) m') := by
  intro s hs
  rw [exec_within, exec_within, h _ (hs.begun hknown hfresh)]

end Rules

section Reading

variable {files : Files} {c : Composer} {stack : List String} {E : Error → Prop}
  (hE : ∀ e, e.isReadingError = true → E e)

include hE

theorem keeps_library (kind : FragmentKind) :
    Keeps (Inside files c stack)
      (fun l => kind = .suite → suiteIndex files c = .ok l) E (library files kind) := by
  refine keeps_composer.bind fun c' hc' => ?_
  obtain ⟨hindex, -⟩ := hc'
  cases hkept : c'.library? kind with
  | some l =>
    refine keeps_pure fun hkind => ?_
    subst hkind
    have hsuites : c'.suites = some l := hkept
    rw [← hindex, suiteIndex, hsuites]
  | none =>
    refine (keeps_lift_of_failsOnly (Library.onlyReadingErrors_read files kind _ _) hE).bind
      fun l hl => ?_
    have hread (hkind : kind = .suite) : suiteIndex files c = .ok l := by
      subst hkind
      have hsuites : c'.suites = none := hkept
      rw [← hindex, suiteIndex, hsuites]
      exact hl
    exact (keeps_modify fun _ hs => hs.keep hread).bind fun _ _ => keeps_pure hread

theorem keeps_fragment (kind : FragmentKind) (name : String) :
    Keeps (Inside files c stack)
      (fun f => kind = .suite → (suitesOf files c).get? name = some f) E
      (Composer.fragment files kind name) := by
  refine (keeps_library hE kind).bind fun l hl => ?_
  cases hget : l.get? name with
  | some f =>
    refine keeps_pure fun hkind => ?_
    rw [suitesOf_eq_of_index (hl hkind), hget]
  | none => exact keeps_composer.bind fun _ _ => keeps_throw (hE _ rfl)

theorem keeps_mergeApi (base : Case) (r : Reference) :
    Keeps (Inside files c stack) (fun _ => True) E (mergeApi files base r) := by
  refine (keeps_fragment hE .api r.name).bind fun f _ => ?_
  refine (keeps_lift_of_failsOnly (f.onlyReadingErrors_instantiate r) hE).bind fun body _ => ?_
  refine keeps_composer.bind fun c' _ => ?_
  exact (keeps_lift_of_failsOnly (ExecutionFields.onlyReadingErrors_ofApiBody _ _ body) hE).bind
    fun _ _ => keeps_pure trivial

theorem keeps_expandEntry {suite : Reference → Composing (List Case)} {entry : Entry}
    (hsuite : ∀ r, entry = .suite r → Keeps (Inside files c stack) (fun _ => True) E (suite r)) :
    Keeps (Inside files c stack) (fun _ => True) E (expandEntry files suite entry) := by
  cases entry with
  | case own => exact keeps_pure trivial
  | api base r => exact (keeps_mergeApi hE base r).bind fun _ _ => keeps_pure trivial
  | suite r => exact hsuite r rfl

theorem keeps_expandEntries {suite : Reference → Composing (List Case)} {entries : List Entry}
    (hsuite : ∀ r, Entry.suite r ∈ entries →
      Keeps (Inside files c stack) (fun _ => True) E (suite r)) :
    Keeps (Inside files c stack) (fun _ => True) E (expandEntries files suite entries) := by
  induction entries with
  | nil => exact keeps_pure trivial
  | cons entry rest ih =>
    have hrest := ih fun r hr => hsuite r (List.mem_cons_of_mem entry hr)
    refine (keeps_expandEntry hE fun r hr => hsuite r (hr ▸ List.mem_cons_self)).bind fun _ _ => ?_
    exact hrest.bind fun _ _ => keeps_pure trivial

/-- Checking a reference keeps the invariant if going into its suite does, which is only done for a
suite that is there and is not being expanded. -/
theorem keeps_expandBy
    {inside : List String → Reference → Fragment → Value → Composing (List Case)} {r : Reference}
    (hchain : r.name ∈ stack → E (chain stack r))
    (hinside : ∀ f body, r.name ∉ stack → (suitesOf files c).get? r.name = some f →
      f.instantiate r = .ok body →
        Keeps (Inside files c stack) (fun _ => True) E (inside stack r f body)) :
    Keeps (Inside files c stack) (fun _ => True) E (expandBy files inside stack r) := by
  refine (keeps_modify fun _ hs => hs.met r).bind fun _ _ => ?_
  by_cases hstack : r.name ∈ stack
  · rw [if_pos hstack]
    exact keeps_throw (hchain hstack)
  rw [if_neg hstack]
  refine (keeps_fragment hE .suite r.name).bind fun f hf => ?_
  refine (keeps_lift_of_failsOnly (f.onlyReadingErrors_instantiate r) hE).bind fun body hbody => ?_
  refine keeps_composer.bind fun c' _ => ?_
  cases c'.expanded.get? r.key with
  | some cases => exact keeps_pure trivial
  | none => exact hinside f body hstack (hf rfl) hbody

/-- Expanding the document of a suite keeps the invariant if expanding the suites that it refers to
does. -/
theorem keeps_expandFresh {suite : Reference → Composing (List Case)} {r : Reference} {f : Fragment}
    {body : Value} (hf : (suitesOf files c).get? r.name = some f) (hbody : f.instantiate r = .ok body)
    (hsuite : ∀ r', Refers files c r r' → Keeps (Inside files c stack) (fun _ => True) E (suite r')) :
    Keeps (Inside files c stack) (fun _ => True) E (expandFresh files suite f body) := by
  refine keeps_composer.bind fun c' hc' => ?_
  refine (keeps_lift_of_failsOnly (Document.onlyReadingErrors_parse _ _ body) hE).bind fun d hd => ?_
  rw [hc'.2] at hd
  exact keeps_expandEntries hE fun r' hr' => hsuite r' ⟨f, body, d, hf, hbody, hd, hr'⟩

theorem keeps_expandInside {inner : List String → Reference → Composing (List Case)}
    {r : Reference} {f : Fragment} {body : Value} (hfresh : r.name ∉ stack)
    (hf : (suitesOf files c).get? r.name = some f) (hbody : f.instantiate r = .ok body)
    (hinner : ∀ r', Refers files c r r' →
      Keeps (Inside files c (stack ++ [r.name])) (fun _ => True) E
        (inner (stack ++ [r.name]) r')) :
    Keeps (Inside files c stack) (fun _ => True) E (expandInside files inner stack r f body) :=
  (keeps_within hf hfresh (keeps_expandFresh hE hf hbody hinner)).bind fun _ _ =>
    (keeps_modify fun _ hs => hs.insert _ _).bind fun _ _ => keeps_pure trivial

end Reading

/-! ## What the recursion does -/

section Agreement

variable {files : Files} {c : Composer} {stack : List String} {E : Error → Prop}
  (hE : ∀ e, e.isReadingError = true → E e)

include hE

theorem agreesOn_expandEntries {suite suite' : Reference → Composing (List Case)}
    {entries : List Entry}
    (hkeeps : ∀ r, Entry.suite r ∈ entries →
      Keeps (Inside files c stack) (fun _ => True) E (suite r))
    (hagrees : ∀ r, Entry.suite r ∈ entries →
      AgreesOn (Inside files c stack) (suite r) (suite' r)) :
    AgreesOn (Inside files c stack) (expandEntries files suite entries)
      (expandEntries files suite' entries) := by
  induction entries with
  | nil => exact agreesOn_refl _ _
  | cons entry rest ih =>
    have hentry : AgreesOn (Inside files c stack) (expandEntry files suite entry)
        (expandEntry files suite' entry) := by
      cases entry with
      | case own => exact agreesOn_refl _ _
      | api base r => exact agreesOn_refl _ _
      | suite r => exact hagrees r List.mem_cons_self
    have hkeepsEntry := keeps_expandEntry hE fun r hr => hkeeps r (hr ▸ List.mem_cons_self)
    have hkeepsRest := keeps_expandEntries hE
      fun r hr => hkeeps r (List.mem_cons_of_mem entry hr)
    refine hentry.bind hkeepsEntry fun first _ => ?_
    exact (ih (fun r hr => hkeeps r (List.mem_cons_of_mem entry hr))
      fun r hr => hagrees r (List.mem_cons_of_mem entry hr)).bind hkeepsRest
        fun _ _ => agreesOn_refl _ _

theorem agreesOn_expandBy
    {inside inside' : List String → Reference → Fragment → Value → Composing (List Case)}
    {r : Reference}
    (hinside : ∀ f body, r.name ∉ stack → (suitesOf files c).get? r.name = some f →
      f.instantiate r = .ok body →
        AgreesOn (Inside files c stack) (inside stack r f body) (inside' stack r f body)) :
    AgreesOn (Inside files c stack) (expandBy files inside stack r)
      (expandBy files inside' stack r) := by
  refine (agreesOn_refl _ _).bind (E := E) (keeps_modify fun _ hs => hs.met r) fun _ _ => ?_
  by_cases hstack : r.name ∈ stack
  · rw [if_pos hstack, if_pos hstack]
    exact agreesOn_refl _ _
  rw [if_neg hstack, if_neg hstack]
  refine (agreesOn_refl _ _).bind (keeps_fragment hE .suite r.name) fun f hf => ?_
  refine (agreesOn_refl _ _).bind
    (keeps_lift_of_failsOnly (f.onlyReadingErrors_instantiate r) hE) fun body hbody => ?_
  refine (agreesOn_refl _ _).bind (E := E) keeps_composer fun c' _ => ?_
  cases c'.expanded.get? r.key with
  | some cases => exact agreesOn_refl _ _
  | none => exact hinside f body hstack (hf rfl) hbody

theorem agreesOn_expandFresh {suite suite' : Reference → Composing (List Case)} {r : Reference}
    {f : Fragment} {body : Value} (hf : (suitesOf files c).get? r.name = some f)
    (hbody : f.instantiate r = .ok body)
    (hkeeps : ∀ r', Refers files c r r' → Keeps (Inside files c stack) (fun _ => True) E (suite r'))
    (hagrees : ∀ r', Refers files c r r' →
      AgreesOn (Inside files c stack) (suite r') (suite' r')) :
    AgreesOn (Inside files c stack) (expandFresh files suite f body)
      (expandFresh files suite' f body) := by
  refine (agreesOn_refl _ _).bind (E := E) keeps_composer fun c' hc' => ?_
  refine (agreesOn_refl _ _).bind
    (keeps_lift_of_failsOnly (Document.onlyReadingErrors_parse _ _ body) hE) fun d hd => ?_
  rw [hc'.2] at hd
  exact agreesOn_expandEntries hE (fun r' hr' => hkeeps r' ⟨f, body, d, hf, hbody, hd, hr'⟩)
    fun r' hr' => hagrees r' ⟨f, body, d, hf, hbody, hd, hr'⟩

theorem agreesOn_expandInside {inner inner' : List String → Reference → Composing (List Case)}
    {r : Reference} {f : Fragment} {body : Value} (hfresh : r.name ∉ stack)
    (hf : (suitesOf files c).get? r.name = some f) (hbody : f.instantiate r = .ok body)
    (hkeeps : ∀ r', Refers files c r r' →
      Keeps (Inside files c (stack ++ [r.name])) (fun _ => True) E (inner (stack ++ [r.name]) r'))
    (hagrees : ∀ r', Refers files c r r' →
      AgreesOn (Inside files c (stack ++ [r.name])) (inner (stack ++ [r.name]) r')
        (inner' (stack ++ [r.name]) r')) :
    AgreesOn (Inside files c stack) (expandInside files inner stack r f body)
      (expandInside files inner' stack r f body) :=
  (agreesOn_within hf hfresh (agreesOn_expandFresh hE hf hbody hkeeps hagrees)).bind
    (keeps_within hf hfresh (keeps_expandFresh hE hf hbody hkeeps)) fun _ _ => agreesOn_refl _ _

end Agreement

/-! ## Expanding suites -/

section Expanding

variable {files : Files} {c : Composer}

/-- An error of a suite inside of itself lists a circle that begins with these references. -/
def EndsInCircle (files : Files) (c : Composer) (path : List Reference) (e : Error) : Prop :=
  ∀ text, e = .circularReference text → ∃ circle, path <+: circle ∧ IsCircle files c circle ∧
    text = Text.join " -> " (circle.map Reference.name)

theorem endsInCircle_of_isReadingError (path : List Reference) (e : Error)
    (h : e.isReadingError = true) : EndsInCircle files c path e := by
  rintro text rfl
  cases h

/-- The suites that are not on a path. -/
def freeSuites (files : Files) (c : Composer) (path : List Reference) : List String :=
  (suitesOf files c).keys.filter (· ∉ path.map Reference.name)

theorem length_freeSuites_lt {path : List Reference} {r : Reference} {f : Fragment}
    (hpath : r.name ∉ path.map Reference.name) (hf : (suitesOf files c).get? r.name = some f) :
    (freeSuites files c (path ++ [r])).length < (freeSuites files c path).length := by
  unfold freeSuites
  rw [List.map_append]
  exact Expansion.length_filter_push_lt hpath hf

theorem length_freeSuites_nil_le : (freeSuites files c []).length ≤ (suitesOf files c).length := by
  have hle := List.length_filter_le (· ∉ ([] : List Reference).map Reference.name)
    (suitesOf files c).keys
  rwa [Dict.keys, List.length_map] at hle

/-- These references are on the way into suites, none of which is inside of itself so far. -/
structure IsPath (files : Files) (c : Composer) (path : List Reference) (r : Reference) : Prop where
  refers : (path ++ [r]).IsChain (Refers files c)
  nodup : (path.map Reference.name).Nodup

theorem isPath_nil (r : Reference) : IsPath files c [] r :=
  ⟨List.isChain_singleton r, List.nodup_nil⟩

theorem IsPath.push {path : List Reference} {r r' : Reference} (h : IsPath files c path r)
    (hpath : r.name ∉ path.map Reference.name) (hr' : Refers files c r r') :
    IsPath files c (path ++ [r]) r' := by
  constructor
  · rw [List.isChain_append]
    refine ⟨h.refers, List.isChain_singleton r', fun x hx y hy => ?_⟩
    rw [List.getLast?_concat] at hx
    cases hx
    cases hy
    exact hr'
  · rw [List.map_append, List.map_singleton, ← List.concat_eq_append]
    exact (List.nodup_concat _ _).mpr ⟨hpath, h.nodup⟩

/-- A reference to a suite on the path closes a circle. -/
theorem IsPath.endsInCircle {path : List Reference} {r : Reference} (h : IsPath files c path r)
    (hr : r.name ∈ path.map Reference.name) :
    EndsInCircle files c (path ++ [r]) (chain (path.map Reference.name) r) := by
  intro text htext
  cases htext
  refine ⟨path ++ [r], List.prefix_rfl, ⟨h.refers, path, r, rfl, hr, h.nodup⟩, ?_⟩
  rw [List.map_append, List.map_singleton]

/-- The induction is on the room, of which there is enough for the names that are still free. -/
theorem keeps_expandSuite (room : ℕ) (path : List Reference) (r : Reference)
    (hroom : (freeSuites files c path).length ≤ room) (hpath : IsPath files c path r) :
    Keeps (Inside files c (path.map Reference.name)) (fun _ => True)
      (EndsInCircle files c (path ++ [r]))
      (expandSuite files room (path.map Reference.name) r) := by
  induction room generalizing path r with
  | zero =>
    rw [expandSuite_eq_expandBy]
    refine keeps_expandBy (endsInCircle_of_isReadingError _) hpath.endsInCircle
      fun f body hfresh hf hbody => ?_
    have hlt := length_freeSuites_lt hfresh hf
    omega
  | succ room ih =>
    rw [expandSuite_eq_expandBy]
    refine keeps_expandBy (endsInCircle_of_isReadingError _) hpath.endsInCircle
      fun f body hfresh hf hbody => ?_
    have hlt := length_freeSuites_lt hfresh hf
    rw [expandUncached_succ]
    refine keeps_expandInside (endsInCircle_of_isReadingError _) hfresh hf hbody fun r' hr' => ?_
    have hinner := ih (path ++ [r]) r' (by omega) (hpath.push hfresh hr')
    rw [List.map_append] at hinner
    refine hinner.mono (fun _ _ => trivial) fun e he text htext => ?_
    obtain ⟨circle, hprefix, hcircle⟩ := he text htext
    exact ⟨circle, (List.prefix_append _ _).trans hprefix, hcircle⟩

/-- However often it is unfolded, the recursion without a bound comes to what the one with a bound
comes to, as long as there is enough room in both for the names that are still free. -/
theorem agreesOn_expandSuite (bottom : List String → Reference → Composing (List Case))
    (n room : ℕ) (path : List Reference) (r : Reference)
    (hroom : (freeSuites files c path).length ≤ room) (hn : (freeSuites files c path).length < n)
    (hpath : IsPath files c path r) :
    AgreesOn (Inside files c (path.map Reference.name))
      (expandSuite files room (path.map Reference.name) r)
      ((expandOver files)^[n] bottom (path.map Reference.name) r) := by
  induction n generalizing room path r with
  | zero => omega
  | succ n ih =>
    rw [expandSuite_eq_expandBy, Function.iterate_succ_apply', expandOver]
    have hE : ∀ e : Error, e.isReadingError = true → EndsInCircle files c path e :=
      endsInCircle_of_isReadingError path
    refine agreesOn_expandBy hE fun f body hfresh hf hbody => ?_
    have hlt := length_freeSuites_lt hfresh hf
    cases room with
    | zero => omega
    | succ room =>
      rw [expandUncached_succ]
      refine agreesOn_expandInside (E := fun _ => True) (fun _ _ => trivial) hfresh hf hbody
        (fun r' hr' => ?_) fun r' hr' => ?_
      · have hinner := keeps_expandSuite room (path ++ [r]) r' (by omega) (hpath.push hfresh hr')
        rw [List.map_append] at hinner
        exact hinner.mono (fun _ _ => trivial) fun _ _ => trivial
      · have hinner := ih room (path ++ [r]) r' (by omega) (by omega) (hpath.push hfresh hr')
        rw [List.map_append] at hinner
        exact hinner

theorem keeps_expand (r : Reference) :
    Keeps (Inside files c []) (fun _ => True) (EndsInCircle files c [r]) (expand files r) := by
  refine (keeps_library (endsInCircle_of_isReadingError _) .suite).bind fun l hl => ?_
  have hroom : (freeSuites files c []).length ≤ (suitesOf files c).length :=
    length_freeSuites_nil_le
  rw [suitesOf_eq_of_index (hl rfl)] at hroom
  exact keeps_expandSuite l.length [] r hroom (isPath_nil r)

theorem agreesOn_expand {n : ℕ} (hn : (suitesOf files c).length < n)
    (bottom : List String → Reference → Composing (List Case)) (r : Reference) :
    AgreesOn (Inside files c []) (expand files r)
      (library files .suite >>= fun _ => (expandOver files)^[n] bottom [] r) := by
  refine (agreesOn_refl _ _).bind (keeps_library (E := fun _ => True) (fun _ _ => trivial) .suite)
    fun l hl => ?_
  have hroom : (freeSuites files c []).length ≤ (suitesOf files c).length :=
    length_freeSuites_nil_le
  have hfree : (freeSuites files c []).length < n := by omega
  rw [suitesOf_eq_of_index (hl rfl)] at hroom
  exact agreesOn_expandSuite bottom n l.length [] r hroom hfree (isPath_nil r)

/-- An error of a suite inside of itself lists a circle that an entry leads into. -/
def EndsInCircleOf (files : Files) (c : Composer) (entries : List Entry) (e : Error) : Prop :=
  ∀ text, e = .circularReference text → ∃ r circle, Entry.suite r ∈ entries ∧
    circle.head? = some r ∧ IsCircle files c circle ∧
      text = Text.join " -> " (circle.map Reference.name)

theorem EndsInCircle.of_mem {r : Reference} {entries : List Entry} {e : Error}
    (h : EndsInCircle files c [r] e) (hr : Entry.suite r ∈ entries) :
    EndsInCircleOf files c entries e := by
  intro text htext
  obtain ⟨circle, ⟨rest, rfl⟩, hcircle⟩ := h text htext
  exact ⟨r, [r] ++ rest, hr, rfl, hcircle⟩

theorem endsInCircleOf_of_isReadingError (entries : List Entry) (e : Error)
    (h : e.isReadingError = true) : EndsInCircleOf files c entries e := by
  rintro text rfl
  cases h

theorem keeps_composing (d : Document) :
    Keeps (Inside files c []) (fun _ => True) (EndsInCircleOf files c d.entries)
      (composing files d) := by
  have hE : ∀ e : Error, e.isReadingError = true → EndsInCircleOf files c d.entries e :=
    endsInCircleOf_of_isReadingError d.entries
  refine (keeps_expandEntries hE fun r hr => ?_).bind fun cases _ =>
    (keeps_lift_of_failsOnly (Case.onlyReadingErrors_validate cases) hE).bind fun _ _ =>
      keeps_pure trivial
  exact (keeps_expand r).mono (fun _ _ => trivial) fun _ he => he.of_mem hr

theorem agreesOn_composing {n : ℕ} (hn : (suitesOf files c).length < n)
    (bottom : List String → Reference → Composing (List Case)) (d : Document) :
    AgreesOn (Inside files c []) (composing files d)
      (composingOver files ((expandOver files)^[n] bottom) d) := by
  have hkeeps (r : Reference) :
      Keeps (Inside files c []) (fun _ => True) (fun _ => True) (expand files r) :=
    (keeps_expand r).mono (fun _ _ => trivial) fun _ _ => trivial
  exact (agreesOn_expandEntries (fun _ _ => trivial) (fun r _ => hkeeps r)
    fun r _ => agreesOn_expand hn bottom r).bind
      (keeps_expandEntries (fun _ _ => trivial) fun r _ => hkeeps r) fun _ _ => agreesOn_refl _ _

/-- Whatever suites a composer has, composing a document comes to an end: the recursion into suites,
which has no bound on its depth, gives the same however it goes on at a depth that is greater than
the number of suites. At every moment the suites that are being expanded have different names, each
of a suite of the composer, so there are no more of them than there are suites. And if a suite is
found inside of itself, the error lists suites that lead from an entry of the document to a suite
that was listed before, the document of each referring to the next. -/
theorem compose_nesting (files : Files) (c : Composer) (d : Document) :
    (∀ n bottom, (suitesOf files c).length < n →
        c.run (composingOver files ((expandOver files)^[n] bottom) d) = c.compose files d) ∧
      (∀ moment, moment <:+ (exec (composing files d) ⟨c, []⟩).2.journal →
        (openSuites moment).Nodup ∧
          (∀ name ∈ openSuites moment, ((suitesOf files c).get? name).isSome) ∧
          openings moment = (openSuites moment).length ∧
          (openSuites moment).length ≤ (suitesOf files c).length) ∧
      ∀ text, (c.compose files d).1 = .error (.circularReference text) →
        ∃ r circle, Entry.suite r ∈ d.entries ∧ circle.head? = some r ∧ IsCircle files c circle ∧
          text = Text.join " -> " (circle.map Reference.name) := by
  obtain ⟨hinside, -, herror⟩ := keeps_composing d ⟨c, []⟩ (inside_nil files c)
  refine ⟨fun n bottom hn => ?_, fun moment hmoment => ?_, fun text htext => herror _ htext text rfl⟩
  · have hagrees := agreesOn_composing hn bottom d ⟨c, []⟩ (inside_nil files c)
    have hrun (m : Composing TestSet) : c.run m = ((exec m ⟨c, []⟩).1, (exec m ⟨c, []⟩).2.composer) :=
      rfl
    rw [compose, hrun, hrun, hagrees]
  · have horderly := hinside.orderly.of_suffix hmoment
    exact ⟨horderly.nodup, horderly.get?_isSome, horderly.openings_eq, horderly.length_le⟩

end Expanding

/-- A document that refers to the suite `a` of the circular suites with an argument. -/
def circularDocument : Document where
  path := "t.yaml"
  project := .ofPath "t.yaml"
  entries := [.suite (referenceTo "a" ["x1"])]

/-- The suite that is inside of itself is found with both suites of the circle being expanded, of the
three there are, and its error lists the circle. -/
theorem compose_nesting_circular :
    let c := ofArea "dependencies" .standard
    let moment := (exec (composing circularSuites circularDocument) ⟨c, []⟩).2.journal.drop 2
    (∀ bottom, c.run (composingOver circularSuites ((expandOver circularSuites)^[4] bottom)
        circularDocument) = c.compose circularSuites circularDocument) ∧
      openSuites moment = ["a", "x1"] ∧ (openSuites moment).length ≤ 3 ∧
      ∃ r circle, Entry.suite r ∈ circularDocument.entries ∧ circle.head? = some r ∧
        IsCircle circularSuites c circle ∧
        "a -> x1 -> a" = Text.join " -> " (circle.map Reference.name) := by
  intro c moment
  obtain ⟨hends, hmoments, herror⟩ := compose_nesting circularSuites c circularDocument
  have hlength : (suitesOf circularSuites c).length = 3 := by decide +kernel
  have hmoment := hmoments moment (List.drop_suffix 2 _)
  rw [hlength] at hmoment hends
  refine ⟨fun bottom => hends 4 bottom (by omega), by decide +kernel, hmoment.2.2.2, herror _ ?_⟩
  have hresult : (c.compose circularSuites circularDocument).1.map (fun _ => ()) =
      .error (.circularReference "a -> x1 -> a") := by decide +kernel
  cases h : (c.compose circularSuites circularDocument).1 with
  | ok t => rw [h] at hresult; cases hresult
  | error e => rw [h] at hresult; cases hresult; rfl

end Casebook.Composition
