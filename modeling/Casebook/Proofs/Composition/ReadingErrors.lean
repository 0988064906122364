import Casebook.Composition.Composer
import Casebook.Proofs.Computation

/-!
# Errors of reading

Whatever goes wrong with a text or a file that is read on the way from files to cases is an error of
reading: an error of loading other than a suite inside of itself, which is not seen in what is read
but in how suites are expanded. The reader of calls reports errors of another family; those are
turned into errors of reading wherever a call stands in a document.

`FailsOnly p` says of a result that it is a value or an error that `p` holds of, and
`ComposingFailsOnly p` says it of a computation that composes, from any composer. Both hold of a
sequence as soon as they hold of its parts, and there is one lemma for each function that reads.
-/

namespace Casebook

open Casebook.Computation

/-! ## Results that fail with some errors only -/

section Results

variable {α β : Type}

/-- A result is a value or an error of some kind. -/
def FailsOnly (p : Error → Bool) (result : Except Error α) : Prop :=
  ∀ e, result = .error e → p e = true

variable {p q : Error → Bool}

theorem FailsOnly.mono {x : Except Error α} (hx : FailsOnly p x)
    (h : ∀ e, p e = true → q e = true) : FailsOnly q x :=
  fun e he => h e (hx e he)

theorem failsOnly_ok (a : α) : FailsOnly p (.ok a) := by
  intro e h
  cases h

theorem failsOnly_error {e : Error} (he : p e = true) :
    FailsOnly p (.error e : Except Error α) := by
  intro e' h
  cases h
  exact he

theorem failsOnly_pure (a : α) : FailsOnly p (pure a) :=
  failsOnly_ok a

theorem failsOnly_throw {e : Error} (he : p e = true) :
    FailsOnly p (throw e : Except Error α) :=
  failsOnly_error he

theorem FailsOnly.bind {x : Except Error α} {f : α → Except Error β} (hx : FailsOnly p x)
    (hf : ∀ a, FailsOnly p (f a)) : FailsOnly p (x >>= f) := by
  cases x with
  | error e => exact failsOnly_error (hx e rfl)
  | ok a => exact hf a

/-- What follows a check is reached only if the check does not throw. -/
theorem failsOnly_check {P : Prop} [Decidable P] {e : Error} {rest : PUnit → Except Error α}
    (he : p e = true) (h : FailsOnly p (rest ⟨⟩)) :
    FailsOnly p (if P then throw e >>= rest else rest ⟨⟩) := by
  split
  · exact failsOnly_error he
  · exact h

theorem FailsOnly.map {x : Except Error α} (hx : FailsOnly p x) (f : α → β) :
    FailsOnly p (x.map f) := by
  cases x with
  | error e => exact failsOnly_error (hx e rfl)
  | ok a => exact failsOnly_ok (f a)

theorem failsOnly_mapError {x : Except Error α} {f : Error → Error}
    (h : ∀ e, x = .error e → p (f e) = true) : FailsOnly p (x.mapError f) := by
  cases x with
  | error e => exact failsOnly_error (h e rfl)
  | ok a => exact failsOnly_ok a

theorem failsOnly_foldlM {f : β → α → Except Error β} (hf : ∀ b a, FailsOnly p (f b a))
    (b : β) (items : List α) : FailsOnly p (items.foldlM f b) := by
  induction items generalizing b with
  | nil => exact failsOnly_ok b
  | cons a rest ih =>
    rw [List.foldlM_cons]
    exact (hf b a).bind ih

theorem failsOnly_mapM {f : α → Except Error β} (hf : ∀ a, FailsOnly p (f a))
    (items : List α) : FailsOnly p (items.mapM f) := by
  induction items with
  | nil => exact failsOnly_ok []
  | cons a rest ih =>
    rw [List.mapM_cons]
    exact (hf a).bind fun b => ih.bind fun more => failsOnly_ok (b :: more)

theorem failsOnly_option_mapM {f : α → Except Error β} (hf : ∀ a, FailsOnly p (f a))
    (a? : Option α) : FailsOnly p (a?.mapM f) := by
  cases a? with
  | none => exact failsOnly_ok none
  | some a => exact (hf a).bind fun b => failsOnly_ok (some b)

end Results

/-! ## Errors of reading -/

/-- Whether an error says that a suite is inside of itself. -/
def Error.isCircular : Error → Bool
  | .circularReference _ => true
  | _ => false

/-- Whether an error can come of what is read. -/
def Error.isReadingError (e : Error) : Bool :=
  e.isLoadError && !e.isCircular

theorem Error.isLoadError_of_isReadingError (e : Error) (h : e.isReadingError = true) :
    e.isLoadError = true :=
  (Bool.and_eq_true_iff.mp h).1

/-- A result is a value or an error of reading. -/
abbrev OnlyReadingErrors {α : Type} (result : Except Error α) : Prop :=
  FailsOnly Error.isReadingError result

/-! ## Calls in documents -/

section Calls

variable {limit : Nat} {text : String} {e : Error}

/-- A text that is no call is at fault in its syntax or nests too deep. -/
theorem error_of_parseCall (h : Template.parseCall limit text = .error e) :
    (∃ input problem, e = .templateSyntax input problem) ∨ ∃ depth, e = .recursionLimit depth := by
  rw [Template.parseCall] at h
  cases hread : Template.readCall limit (Text.trim text.toList) with
  | ok c => rw [hread] at h; cases h
  | error fault =>
    rw [hread] at h
    cases h
    cases fault with
    | problem p column => exact .inl ⟨_, _, rfl⟩
    | tooDeep depth => exact .inr ⟨depth, rfl⟩

/-- What is wrong with a call in a document is an error of reading once it is placed there. -/
theorem isReadingError_within (location : String) (h : Template.parseCall limit text = .error e) :
    (e.within location).isReadingError = true := by
  obtain ⟨input, problem, rfl⟩ | ⟨depth, rfl⟩ := error_of_parseCall h
  · rfl
  · rfl

/-- The same of what is made of a call. -/
theorem onlyReadingErrors_call {α : Type} (location : String) (limit : Nat) (text : String)
    (make : Call → α) :
    OnlyReadingErrors
      (((Template.parseCall limit text).map make).mapError (Error.within location)) := by
  refine failsOnly_mapError fun e h => ?_
  cases hcall : Template.parseCall limit text with
  | ok c => rw [hcall] at h; cases h
  | error e' =>
    rw [hcall] at h
    cases h
    exact isReadingError_within location hcall

end Calls

/-! ## Documents -/

section Documents

theorem Block.onlyReadingErrors_ofItems (location : String) (number : Nat) (items : List Value) :
    OnlyReadingErrors (Block.ofItems location number items) := by
  induction items generalizing number with
  | nil => exact failsOnly_ok []
  | cons item rest ih =>
    refine FailsOnly.bind ?_ fun block =>
      (ih (number + 1)).bind fun blocks => failsOnly_ok (block :: blocks)
    unfold Block.ofItem
    split
    · exact failsOnly_ok _
    · exact failsOnly_error rfl

theorem Block.onlyReadingErrors_ofDocument (location : String) (v : Value) :
    OnlyReadingErrors (Block.ofDocument location v) := by
  unfold Block.ofDocument
  split
  · exact failsOnly_error rfl
  · exact failsOnly_error rfl
  · exact Block.onlyReadingErrors_ofItems location 1 _
  · exact failsOnly_error rfl

theorem Step.onlyReadingErrors_ofEntries (location : String) (entries : Dict Value) :
    OnlyReadingErrors (Step.ofEntries location entries) := by
  refine FailsOnly.bind ?_ fun result => ?_
  · unfold Step.resultName
    split
    · exact failsOnly_ok none
    · split
      · exact failsOnly_error rfl
      · exact failsOnly_ok _
    · exact failsOnly_error rfl
  · split
    · refine FailsOnly.bind ?_ fun _ => failsOnly_ok _
      unfold Step.checkFields
      split
      · exact failsOnly_ok ()
      · split
        · exact failsOnly_error rfl
        · exact failsOnly_ok ()
      · exact failsOnly_ok ()
      · exact failsOnly_error rfl
    · exact failsOnly_error rfl

namespace ExecutionFields

theorem onlyReadingErrors_actions (location : String) (limit : Nat) (texts : List String) :
    OnlyReadingErrors (actions location limit texts) :=
  failsOnly_mapM (fun text => onlyReadingErrors_call location limit text _) texts

theorem onlyReadingErrors_stepsFrom (location : String) (number : Nat) (steps : List (Dict Value)) :
    OnlyReadingErrors (stepsFrom location number steps) := by
  induction steps generalizing number with
  | nil => exact failsOnly_ok []
  | cons entries rest ih =>
    exact (Step.onlyReadingErrors_ofEntries _ entries).bind fun step =>
      (ih (number + 1)).bind fun more => failsOnly_ok (step :: more)

theorem Written.onlyReadingErrors_read (w : Written) (location : String) (limit : Nat) :
    OnlyReadingErrors (w.read location limit) := by
  have hactions := failsOnly_option_mapM (onlyReadingErrors_actions location limit)
  have hsteps := failsOnly_option_mapM (onlyReadingErrors_stepsFrom location 1)
  exact (hactions w.preCommand).bind fun _ => (hsteps w.steps).bind fun _ =>
    (hactions w.postCommand).bind fun _ => (hactions w.verify).bind fun _ => failsOnly_ok _

theorem onlyReadingErrors_ofApiBody (location : String) (limit : Nat) (body : Value) :
    OnlyReadingErrors (ofApiBody location limit body) := by
  unfold ofApiBody
  dsimp only
  split
  · exact Written.onlyReadingErrors_read _ location limit
  · exact failsOnly_throw rfl

end ExecutionFields

theorem Project.onlyReadingErrors_ofBody (path : String) (body : Value) :
    OnlyReadingErrors (Project.ofBody path body) := by
  unfold Project.ofBody
  split
  · exact failsOnly_ok _
  · dsimp only
    split
    · exact failsOnly_ok _
    · exact failsOnly_error rfl

namespace Entry

theorem onlyReadingErrors_scalarText (location field : String) (v : Option Value) :
    OnlyReadingErrors (scalarText location field v) := by
  unfold scalarText
  split
  · exact failsOnly_ok _
  · exact failsOnly_ok _
  · exact failsOnly_ok _
  · exact failsOnly_error rfl
  · exact failsOnly_error rfl
  · exact failsOnly_error rfl

theorem onlyReadingErrors_readPatterns (sources : Dict String) :
    OnlyReadingErrors (readPatterns sources) := by
  refine failsOnly_mapM (fun entry => ?_) sources
  split
  · exact failsOnly_ok _
  · exact failsOnly_error rfl

theorem onlyReadingErrors_reference (location : String) (limit : Nat) (kind : FragmentKind)
    (text : String) : OnlyReadingErrors (reference location limit kind text) :=
  onlyReadingErrors_call location limit text _

theorem onlyReadingErrors_ofSuite (location : String) (limit : Nat) (w : Written) (text : String) :
    OnlyReadingErrors (ofSuite location limit w text) := by
  unfold ofSuite
  dsimp only
  refine failsOnly_check rfl (failsOnly_check rfl ?_)
  exact (onlyReadingErrors_reference location limit .suite text).bind fun _ => failsOnly_pure _

theorem onlyReadingErrors_ofCase (location : String) (limit : Nat) (w : Written) :
    OnlyReadingErrors (ofCase location limit w) := by
  refine (onlyReadingErrors_scalarText location "id" w.id).bind fun id => ?_
  refine (onlyReadingErrors_scalarText _ "desc" w.desc).bind fun desc => ?_
  refine (w.execution.onlyReadingErrors_read _ limit).bind fun execution => ?_
  refine (onlyReadingErrors_readPatterns _).bind fun patterns => ?_
  dsimp only
  split
  · exact (onlyReadingErrors_reference _ limit .api _).bind fun _ => failsOnly_pure _
  · exact failsOnly_pure _

theorem onlyReadingErrors_ofBody (location : String) (limit : Nat) (body : Value) :
    OnlyReadingErrors (ofBody location limit body) := by
  unfold ofBody
  split
  · exact failsOnly_error rfl
  · split
    · exact onlyReadingErrors_ofSuite location limit _ _
    · exact onlyReadingErrors_ofCase location limit _

end Entry

theorem Document.onlyReadingErrors_addBlock (path : String) (limit : Nat)
    (before : Progress) (b : Block) :
    OnlyReadingErrors (Document.addBlock path limit before b) := by
  unfold Document.addBlock
  split
  · split
    · exact failsOnly_error rfl
    · exact (Project.onlyReadingErrors_ofBody path b.body).bind fun p => failsOnly_ok _
  · split
    · exact (Entry.onlyReadingErrors_ofBody path limit b.body).bind fun entry => failsOnly_ok _
    · exact failsOnly_error rfl

theorem Document.onlyReadingErrors_parse (path : String) (limit : Nat) (v : Value) :
    OnlyReadingErrors (Document.parse path limit v) :=
  (Block.onlyReadingErrors_ofDocument path v).bind fun blocks =>
    (failsOnly_foldlM (Document.onlyReadingErrors_addBlock path limit) _ blocks).bind fun _ =>
      failsOnly_ok _

end Documents

/-! ## Fragments -/

section Fragments

theorem FragmentHead.onlyReadingErrors_parse (location text : String) :
    OnlyReadingErrors (FragmentHead.parse location text) := by
  refine (failsOnly_mapError fun e _ => rfl).bind fun call => ?_
  refine (failsOnly_foldlM (fun params a => ?_) _ call.args).bind fun params =>
    failsOnly_ok _
  unfold FragmentHead.addParam
  split
  · split
    · exact failsOnly_error rfl
    · exact failsOnly_ok _
  · exact failsOnly_error rfl

/-- Only the number of arguments can be wrong. -/
theorem Fragment.onlyReadingErrors_instantiate (f : Fragment) (r : Reference) :
    OnlyReadingErrors (f.instantiate r) := by
  refine FailsOnly.map ?_ _
  unfold FragmentHead.bind
  split
  · exact failsOnly_error rfl
  · exact failsOnly_ok _

end Fragments

/-! ## Files -/

namespace Source

variable (files : Files)

theorem onlyReadingErrors_readValue (path : String) : OnlyReadingErrors (readValue files path) := by
  unfold readValue
  split
  · exact failsOnly_error rfl
  · split
    · exact failsOnly_error rfl
    · split
      · exact failsOnly_ok _
      · exact failsOnly_error rfl

theorem onlyReadingErrors_readDocument (limit : Nat) (path : String) :
    OnlyReadingErrors (readDocument files limit path) :=
  (onlyReadingErrors_readValue files path).bind (Document.onlyReadingErrors_parse path limit)

theorem onlyReadingErrors_apiOfBlock (path : String) (limit : Nat) (b : Block) :
    OnlyReadingErrors (apiOfBlock path limit b) := by
  unfold apiOfBlock
  dsimp only
  refine failsOnly_check rfl ?_
  split
  · exact failsOnly_throw rfl
  · exact (FragmentHead.onlyReadingErrors_parse path _).bind fun head =>
      (ExecutionFields.onlyReadingErrors_ofApiBody _ limit b.body).bind fun _ => failsOnly_ok _

theorem onlyReadingErrors_readApis (limit : Nat) (path : String) :
    OnlyReadingErrors (readApis files limit path) :=
  (onlyReadingErrors_readValue files path).bind fun v =>
    (Block.onlyReadingErrors_ofDocument path v).bind
      (failsOnly_mapM (onlyReadingErrors_apiOfBlock path limit))

theorem onlyReadingErrors_readSuite (limit : Nat) (path : String) :
    OnlyReadingErrors (readSuite files limit path) := by
  refine (onlyReadingErrors_readValue files path).bind fun body => ?_
  refine (Document.onlyReadingErrors_parse path limit body).bind fun document => ?_
  split
  · exact failsOnly_error rfl
  · exact (FragmentHead.onlyReadingErrors_parse path _).bind fun head => failsOnly_ok _

theorem onlyReadingErrors_readFragments (kind : FragmentKind) (limit : Nat) (path : String) :
    OnlyReadingErrors (readFragments files kind limit path) := by
  cases kind with
  | api => exact onlyReadingErrors_readApis files limit path
  | suite => exact (onlyReadingErrors_readSuite files limit path).map _

theorem onlyReadingErrors_definitionsIn (folder : String) :
    OnlyReadingErrors (definitionsIn files folder) := by
  unfold definitionsIn
  split
  · exact failsOnly_ok _
  · exact failsOnly_error rfl

theorem onlyReadingErrors_testsetsAt (layout : Layout) (path : String) :
    OnlyReadingErrors (testsetsAt files layout path) := by
  unfold testsetsAt
  split
  · exact failsOnly_ok _
  · split
    · split
      · exact failsOnly_ok _
      · exact failsOnly_error rfl
    · exact failsOnly_error rfl

end Source

theorem Library.onlyReadingErrors_add (kind : FragmentKind) (l : Library) (f : Fragment) :
    OnlyReadingErrors (Library.add kind l f) := by
  unfold Library.add
  split
  · exact failsOnly_error rfl
  · exact failsOnly_ok _

theorem Library.onlyReadingErrors_read (files : Files) (kind : FragmentKind) (limit : Nat)
    (folder : String) : OnlyReadingErrors (Library.read files kind limit folder) := by
  refine (Source.onlyReadingErrors_definitionsIn files folder).bind fun paths => ?_
  refine failsOnly_foldlM (fun l path => ?_) [] paths
  exact (Source.onlyReadingErrors_readFragments files kind limit path).bind
    (failsOnly_foldlM (Library.onlyReadingErrors_add kind) l)

/-! ## Cases -/

theorem Case.onlyReadingErrors_validateFrom (seen : List String) (cases : List Case) :
    OnlyReadingErrors (Case.validateFrom seen cases) := by
  induction cases generalizing seen with
  | nil => exact failsOnly_ok ()
  | cons c rest ih =>
    rw [Case.validateFrom]
    split
    · next e h =>
      refine failsOnly_error ?_
      unfold Case.fault? at h
      split at h
      · cases h; rfl
      split at h
      · cases h; rfl
      split at h
      · cases h; rfl
      · cases h
    · exact ih (c.id :: seen)

theorem Case.onlyReadingErrors_validate (cases : List Case) :
    OnlyReadingErrors (Case.validate cases) :=
  Case.onlyReadingErrors_validateFrom [] cases

/-! ## Composing -/

section Composing

variable {α β : Type} {p : Error → Bool} {m : Composing α}

/-- From any composer, a computation that composes gives a value or an error of some kind. -/
def ComposingFailsOnly (p : Error → Bool) (m : Composing α) : Prop :=
  ∀ s, FailsOnly p (exec m s).1

theorem ComposingFailsOnly.mono {q : Error → Bool} (hm : ComposingFailsOnly p m)
    (h : ∀ e, p e = true → q e = true) : ComposingFailsOnly q m :=
  fun s => (hm s).mono h

theorem composingFailsOnly_lift {result : Except Error α} (h : FailsOnly p result) :
    ComposingFailsOnly p (Composing.lift result) :=
  fun _ => h

theorem composingFailsOnly_pure (a : α) : ComposingFailsOnly p (pure a) :=
  fun _ => failsOnly_ok a

theorem composingFailsOnly_throw {e : Error} (he : p e = true) :
    ComposingFailsOnly p (throw e : Composing α) :=
  fun _ => failsOnly_error he

theorem composingFailsOnly_composer : ComposingFailsOnly p Composing.composer :=
  fun _ => failsOnly_ok _

theorem composingFailsOnly_modify (f : Composition → Composition) :
    ComposingFailsOnly p (modify f) :=
  fun _ => failsOnly_ok _

theorem ComposingFailsOnly.bind {f : α → Composing β} (hm : ComposingFailsOnly p m)
    (hf : ∀ a, ComposingFailsOnly p (f a)) : ComposingFailsOnly p (m >>= f) := by
  intro s
  have h := hm s
  rw [exec_bind]
  rcases hs : exec m s with ⟨e | a, s'⟩ <;> rw [hs] at h
  · exact failsOnly_error (h e rfl)
  · exact hf a s'

theorem ComposingFailsOnly.within (hm : ComposingFailsOnly p m) (stack : List String) :
    ComposingFailsOnly p (Composing.within stack m) :=
  fun s => hm { s with journal := .begun stack :: s.journal }

end Composing

namespace Composer

variable (files : Files)

theorem composingFailsOnly_library (kind : FragmentKind) :
    ComposingFailsOnly Error.isReadingError (library files kind) := by
  refine composingFailsOnly_composer.bind fun c => ?_
  split
  · exact composingFailsOnly_pure _
  · exact (composingFailsOnly_lift (Library.onlyReadingErrors_read files kind _ _)).bind fun l =>
      (composingFailsOnly_modify _).bind fun _ => composingFailsOnly_pure l

theorem composingFailsOnly_fragment (kind : FragmentKind) (name : String) :
    ComposingFailsOnly Error.isReadingError (fragment files kind name) := by
  refine (composingFailsOnly_library files kind).bind fun l => ?_
  split
  · exact composingFailsOnly_pure _
  · exact composingFailsOnly_composer.bind fun _ => composingFailsOnly_throw rfl

theorem composingFailsOnly_mergeApi (base : Case) (r : Reference) :
    ComposingFailsOnly Error.isReadingError (mergeApi files base r) := by
  refine (composingFailsOnly_fragment files .api r.name).bind fun f => ?_
  refine (composingFailsOnly_lift (f.onlyReadingErrors_instantiate r)).bind fun body => ?_
  refine composingFailsOnly_composer.bind fun c => ?_
  exact (composingFailsOnly_lift (ExecutionFields.onlyReadingErrors_ofApiBody _ _ body)).bind
    fun _ => composingFailsOnly_pure _

end Composer

end Casebook
