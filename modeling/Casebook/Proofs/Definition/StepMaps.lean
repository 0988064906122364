import Casebook.Definition.Step
import Casebook.Proofs.Computation
import Casebook.Proofs.Dictionary
import Casebook.Proofs.Text.Trimming

/-!
# Steps as they are written

A mapping is a step exactly if it is well formed, and nothing in it is lost: `Step.entries` writes the
step down as the mapping it was read from, but for blanks around the name of its variable. So mappings
that make the same step differ in these blanks alone.
-/

namespace Casebook

open Casebook.Computation

/-! ## Kinds -/

namespace StepKind

/-- The keys of the five kinds that every run knows. -/
def knownKeys : List String :=
  ["request", "webdriver", "mobiledriver", "wpfdriver", "mfcdriver"]

/-- A kind has the key that names it. -/
@[simp] theorem key_ofKey (key : String) : (ofKey key).key = key := by
  unfold ofKey
  split <;> rfl

theorem isKnown_ofKey_iff (key : String) : (ofKey key).isKnown = true ↔ key ∈ knownKeys := by
  unfold ofKey
  split
  case h_6 hrequest hweb hmobile hwpf hmfc =>
    simp only [isKnown, knownKeys, List.mem_cons, List.not_mem_nil, or_false]
    tauto
  all_goals simp [isKnown, knownKeys]

theorem ofKey_eq_request_iff (key : String) : ofKey key = request ↔ key = "request" := by
  constructor
  · intro h
    rw [← key_ofKey key, h]
    rfl
  · rintro rfl
    rfl

end StepKind

namespace Step

/-! ## Well-formed mappings -/

/-- A name is a text that is not blank. -/
def IsResultName (v : Value) : Prop :=
  ∃ name, v = .string name ∧ ∃ c ∈ name.toList, Text.isBlank c = false

/-- A mapping has one entry next to the variable. -/
structure HasOnly (entries : Dict Value) (key : String) (fields : Value) : Prop where
  ne_result : key ≠ resultKey
  bound : entries.get? key = some fields
  others : ∀ other, other ≠ resultKey → other ≠ key → entries.get? other = none

/-- The fields suit the key: those of a known kind are a mapping, and those of a request have an url
and a method. -/
structure Suits (key : String) (fields : Value) : Prop where
  mapping : key ∈ StepKind.knownKeys → ∃ body, fields = .object body
  request : key = "request" → ∀ body, fields = .object body →
    Dict.contains body "url" = true ∧ Dict.contains body "method" = true

/-- A mapping is what a step is written as. -/
structure WellFormed (entries : Dict Value) : Prop where
  result : ∀ v, entries.get? resultKey = some v → IsResultName v
  kind : ∃ key fields, HasOnly entries key fields ∧ Suits key fields

/-- The name that a value gives a variable. -/
def nameIn (v : Value) : String :=
  Text.trimmed (v.textD "")

/-- A mapping without the blanks around the name of the variable. -/
def trimResult (entries : Dict Value) : Dict Value :=
  match entries.get? resultKey with
  | some v => entries.insert resultKey (.string (nameIn v))
  | none => entries

/-- The mapping that a step is written as. -/
def entries (s : Step) : Dict Value :=
  match s.result with
  | some name => Dict.insert [(s.kind.key, s.fields)] resultKey (.string name)
  | none => [(s.kind.key, s.fields)]

/-! ## The checks -/

theorem trimmed_ne_empty_iff {name : String} :
    Text.trimmed name ≠ "" ↔ ∃ c ∈ name.toList, Text.isBlank c = false := by
  have htrim : Text.trimmed name = "" ↔ Text.trim name.toList = [] := by
    rw [Text.trimmed, ← String.toList_inj, String.toList_ofList]
    rfl
  rw [ne_eq, htrim, Text.trim_eq_nil_iff]
  simp

section

variable {location : String} {entries : Dict Value} {s : Step}

theorem resultName_eq_ok_iff {v : Option Value} {result : Option String} :
    resultName location v = .ok result ↔ (∀ w, v = some w → IsResultName w) ∧ result = v.map nameIn := by
  unfold resultName
  split
  · simp [eq_comm]
  · next name =>
    have hname : IsResultName (.string name) ↔ Text.trimmed name ≠ "" := by
      rw [trimmed_ne_empty_iff, IsResultName]
      simp
    simp only [Option.some.injEq, forall_eq', hname]
    split
    · next hblank => simp [hblank]
    · next hblank => simp [hblank, nameIn, Value.textD, Value.text?, eq_comm]
  · next w hw =>
    have hother : ¬IsResultName w := by
      rintro ⟨name, rfl, -⟩
      exact hw name rfl
    simp [hother]

/-- The fields of a kind are checked for its key. -/
theorem checkFields_eq_ok_iff {key : String} {fields : Value} :
    checkFields location (.ofKey key) fields = .ok () ↔ Suits key fields := by
  have hknown := StepKind.isKnown_ofKey_iff key
  have hrequest := StepKind.ofKey_eq_request_iff key
  generalize StepKind.ofKey key = kind at hknown hrequest
  unfold checkFields
  split
  · -- A kind of its own may have any fields.
    next name =>
    have hkey : key ∉ StepKind.knownKeys := fun h => by cases hknown.mpr h
    have hne : key ≠ "request" := fun h => by cases hrequest.mpr h
    exact ⟨fun _ => ⟨fun h => absurd h hkey, fun h => absurd h hne⟩, fun _ => rfl⟩
  · next body =>
    have hkey : key = "request" := hrequest.mp rfl
    have hfound : (requestFields.find? fun field => !Dict.contains body field) = none ↔
        Dict.contains body "url" = true ∧ Dict.contains body "method" = true := by
      simp [requestFields]
    split
    · next field hfield =>
      refine ⟨nofun, fun h => ?_⟩
      rw [hfound.mpr (h.request hkey body rfl)] at hfield
      cases hfield
    · next hnone =>
      refine ⟨fun _ => ⟨fun _ => ⟨body, rfl⟩, fun _ body' heq => ?_⟩, fun _ => rfl⟩
      cases heq
      exact hfound.mp hnone
  · next kind body hother hne =>
    refine ⟨fun _ => ⟨fun _ => ⟨body, rfl⟩, fun h => ?_⟩, fun _ => rfl⟩
    exact absurd (hrequest.mpr h) hne
  · next hother hmapping _ =>
    refine ⟨nofun, fun h => ?_⟩
    have hkey : key ∈ StepKind.knownKeys := by
      refine hknown.mp ?_
      cases kind with
      | other name => exact absurd rfl (hother name)
      | _ => rfl
    obtain ⟨body, rfl⟩ := h.mapping hkey
    exact absurd rfl (hmapping body)

/-- A mapping is read as a step if its variable is named, it has one other entry and the fields in it
suit their key. -/
theorem ofEntries_eq_ok_iff (hentries : entries.Ordered) :
    ofEntries location entries = .ok s ↔
      (∀ v, entries.get? resultKey = some v → IsResultName v) ∧
        HasOnly entries s.kind.key s.fields ∧ Suits s.kind.key s.fields ∧
        s.kind = .ofKey s.kind.key ∧ s.result = (entries.get? resultKey).map nameIn := by
  constructor
  · intro h
    obtain ⟨result, hresult, h⟩ := bind_eq_ok.mp h
    obtain ⟨hname, rfl⟩ := resultName_eq_ok_iff.mp hresult
    split at h
    · next key fields herase =>
      obtain ⟨_, hfields, h⟩ := bind_eq_ok.mp h
      cases h
      obtain ⟨hne, hbound, hothers⟩ := hentries.erase_eq_singleton_iff.mp herase
      rw [StepKind.key_ofKey]
      exact ⟨hname, ⟨hne, hbound, hothers⟩, checkFields_eq_ok_iff.mp hfields, rfl, rfl⟩
    · cases h
  · rintro ⟨hname, honly, hsuits, hkind, hresult⟩
    have herase := hentries.erase_eq_singleton_iff.mpr ⟨honly.ne_result, honly.bound, honly.others⟩
    rw [ofEntries, resultName_eq_ok_iff.mpr ⟨hname, rfl⟩, ok_bind, herase]
    simp only
    rw [checkFields_eq_ok_iff.mpr hsuits, ok_bind, ← hkind, ← hresult]
    rfl

theorem exists_ofEntries_iff (hentries : entries.Ordered) :
    (∃ s, ofEntries location entries = .ok s) ↔ WellFormed entries := by
  constructor
  · rintro ⟨s, h⟩
    obtain ⟨hname, honly, hsuits, -⟩ := (ofEntries_eq_ok_iff hentries).mp h
    exact ⟨hname, _, _, honly, hsuits⟩
  · rintro ⟨hname, key, fields, honly, hsuits⟩
    refine ⟨⟨.ofKey key, fields, (entries.get? resultKey).map nameIn⟩,
      (ofEntries_eq_ok_iff hentries).mpr ?_⟩
    rw [StepKind.key_ofKey]
    exact ⟨hname, honly, hsuits, rfl, rfl⟩

/-! ## Nothing is lost -/

/-- Next to the variable a mapping has what its one other entry alone has. -/
theorem HasOnly.get?_eq {key : String} {fields : Value} (h : HasOnly entries key fields)
    {other : String} (hother : other ≠ resultKey) :
    entries.get? other = Dict.get? [(key, fields)] other := by
  rw [Dict.get?_cons, Dict.get?_nil]
  split
  · next heq => rw [← heq, h.bound]
  · next hne => exact h.others other hother (Ne.symm hne)

/-- A step is written as the mapping that it was read from, without blanks around the name of its
variable. -/
theorem trimResult_eq_entries (hentries : entries.Ordered) (h : ofEntries location entries = .ok s) :
    trimResult entries = s.entries := by
  obtain ⟨-, honly, -, -, hresult⟩ := (ofEntries_eq_ok_iff hentries).mp h
  have hone : Dict.Ordered [(s.kind.key, s.fields)] := List.pairwise_singleton _ _
  unfold trimResult Step.entries
  rw [hresult]
  cases hget : entries.get? resultKey with
  | none =>
    simp only [Option.map_none]
    refine hentries.ext hone fun key => ?_
    by_cases hkey : key = resultKey
    · rw [hkey, hget, Dict.get?_cons, if_neg honly.ne_result, Dict.get?_nil]
    · exact honly.get?_eq hkey
  | some v =>
    simp only [Option.map_some]
    refine (hentries.insert _ _).ext (hone.insert _ _) fun key => ?_
    by_cases hkey : key = resultKey
    · rw [hkey, Dict.get?_insert_self, Dict.get?_insert_self]
    · rw [Dict.get?_insert_of_ne _ _ (Ne.symm hkey), Dict.get?_insert_of_ne _ _ (Ne.symm hkey)]
      exact honly.get?_eq hkey

end

/-- A mapping is a step exactly if it is well formed: its variable is left out or a text that is not
blank, it has one other entry, and if the key of that entry is one of the five known kinds its value is
a mapping, with an url and a method for a request. The step has that key and that value, unchanged, and
the name of the variable without blanks around it. So the step is written as the mapping that it was
read from, without these blanks, and two mappings that make the same step are the same without them. -/
theorem ofEntries_keeps_entries (location : String) {entries : Dict Value}
    (hentries : entries.Ordered) :
    ((∃ s, ofEntries location entries = .ok s) ↔ WellFormed entries) ∧
    ∀ s, ofEntries location entries = .ok s →
      HasOnly entries s.kind.key s.fields ∧ s.kind = .ofKey s.kind.key ∧
      s.result = (entries.get? resultKey).map nameIn ∧
      trimResult entries = s.entries ∧
      ∀ location' entries', Dict.Ordered entries' → ofEntries location' entries' = .ok s →
        trimResult entries = trimResult entries' := by
  refine ⟨exists_ofEntries_iff hentries, fun s h => ?_⟩
  obtain ⟨-, honly, -, hkind, hresult⟩ := (ofEntries_eq_ok_iff hentries).mp h
  have hwritten := trimResult_eq_entries hentries h
  refine ⟨honly, hkind, hresult, hwritten, fun location' entries' hentries' h' => ?_⟩
  rw [hwritten, trimResult_eq_entries hentries' h']

/-- A request whose variable is written between blanks. -/
def spacedRequest : Dict Value :=
  [("request", .object [("method", .string "GET"), ("url", .string "/")]),
    ("result", .string " answer ")]

/-- The same step is made of the mapping without the blanks. -/
theorem ofEntries_keeps_entries_spaced :
    ∃ s, Dict.Ordered spacedRequest ∧ WellFormed spacedRequest ∧
      ofEntries "t.yaml" spacedRequest = .ok s ∧ s.result = some "answer" ∧
      trimResult spacedRequest = s.entries := by
  have hordered : Dict.Ordered spacedRequest := List.pairwise_pair.mpr (by decide)
  obtain ⟨haccepted, hkept⟩ := ofEntries_keeps_entries "t.yaml" hordered
  have hread : ofEntries "t.yaml" spacedRequest = .ok ⟨.request,
      .object [("method", .string "GET"), ("url", .string "/")], some "answer"⟩ := by
    cbv
  exact ⟨_, hordered, haccepted.mp ⟨_, hread⟩, hread, rfl, (hkept _ hread).2.2.2.1⟩

end Step

end Casebook
