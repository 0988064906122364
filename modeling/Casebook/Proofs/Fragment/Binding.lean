import Casebook.Definition.Fragment
import Casebook.Proofs.Dictionary
import Casebook.Proofs.Template.Calls
import Mathlib.Data.List.Nodup

/-!
# Binding parameters

The parameters of a fragment are words, each declared once. A reference that has as many arguments
binds each of them to the argument at its place, but for a parameter that is passed on under its own
name, which stays as it is.
-/

namespace Casebook

open Template Segment Casebook.Computation

namespace FragmentHead

/-! ## Parameters -/

/-- What an argument of a head declares is a word. -/
theorem isName_of_param? {a : Argument} {name : String} (ha : CanonicalArg a)
    (h : param? a = some name) : IsName name := by
  unfold param? at h
  split at h
  · next body _ =>
    split at h
    · next hsole =>
      cases h
      unfold solePlaceholder? at hsole
      split at hsole
      · next hbody =>
        cases hsole
        obtain ⟨-, hcanonical⟩ := ha
        rw [show body = [.var name] from hbody] at hcanonical
        exact hcanonical.1
      · cases hsole
      · cases hsole
    · cases h
  · cases h

/-- Adding parameters keeps them words that are different from one another. -/
theorem params_of_foldlM {location text : String} {args : List Argument}
    (hargs : CanonicalArgs args)
    {params params' : List String} (hnodup : params.Nodup) (hnames : ∀ p ∈ params, IsName p)
    (h : args.foldlM (addParam location text) params = .ok params') :
    params'.Nodup ∧ ∀ p ∈ params', IsName p := by
  induction args generalizing params with
  | nil =>
    cases h
    exact ⟨hnodup, hnames⟩
  | cons a args ih =>
    obtain ⟨ha, hargs⟩ := hargs
    rw [List.foldlM_cons] at h
    obtain ⟨more, hadd, h⟩ := bind_eq_ok.mp h
    unfold addParam at hadd
    split at hadd
    · next name hparam =>
      split at hadd
      · cases hadd
      · next hnew =>
        cases hadd
        refine ih hargs ?_ ?_ h
        · have hdisjoint : params.Disjoint [name] := by simpa using hnew
          exact hnodup.append (by simp) hdisjoint
        · intro p hp
          rcases List.mem_append.mp hp with hp | hp
          · exact hnames p hp
          · rw [List.mem_singleton.mp hp]
            exact isName_of_param? ha hparam
    · cases hadd

/-- The parameters of a head are words, each declared once. -/
theorem params_of_parse {location text : String} {h : FragmentHead}
    (hparse : FragmentHead.parse location text = .ok h) :
    h.params.Nodup ∧ ∀ p ∈ h.params, IsName p := by
  obtain ⟨call, hcall, hparse⟩ := bind_eq_ok.mp hparse
  obtain ⟨params, hparams, hparse⟩ := bind_eq_ok.mp hparse
  cases hparse
  have hcanonical : CanonicalArgs call.args := by
    cases hread : parseCall defaultDepth text with
    | error e =>
      rw [hread] at hcall
      cases hcall
    | ok c =>
      rw [hread] at hcall
      cases hcall
      exact (parseCall_eq_ok.mp hread).canonical
  exact params_of_foldlM hcanonical List.nodup_nil (by simp) hparams

/-! ## Arguments of references -/

/-- The arguments of a reference can be read again with the room it was read in. -/
theorem rereads_of_parse {kind : FragmentKind} {limit : ℕ} {text : String} {r : Reference}
    (hparse : Reference.parse kind limit text = .ok r) :
    ∀ a ∈ r.call.args, Rereads (TakesPlaceholder limit) a := by
  obtain ⟨c, hcall, heq⟩ := map_eq_ok.mp hparse
  cases heq
  exact (parseCall_eq_ok.mp hcall).rereads

section

variable {h : FragmentHead} {r : Reference} {mapping : Dict Substitution}

/-- The parameters and what they are bound to, but for those that are passed on. -/
def bindings (h : FragmentHead) (r : Reference) : List (String × Substitution) :=
  ((h.params.zip r.call.args).filter fun (param, a) => a.raw ≠ "$" ++ param).map
    fun (param, a) => (param, ⟨a.source, a.raw⟩)

theorem bind_eq_ok :
    h.bind r = .ok mapping ↔
      r.call.args.length = h.params.length ∧ mapping = Dict.ofList (bindings h r) := by
  unfold FragmentHead.bind
  split
  · next hne =>
    constructor
    · intro hbind
      cases hbind
    · intro hbind
      exact absurd hbind.1 hne
  · next heq =>
    rw [ne_eq, not_not] at heq
    simp only [Except.ok.injEq, heq, true_and]
    exact ⟨Eq.symm, Eq.symm⟩

theorem mem_bindings_iff {name : String} {sub : Substitution} :
    (name, sub) ∈ bindings h r ↔ ∃ a, (name, a) ∈ h.params.zip r.call.args ∧
      a.raw ≠ "$" ++ name ∧ sub = ⟨a.source, a.raw⟩ := by
  unfold bindings
  constructor
  · intro hmem
    obtain ⟨⟨param, a⟩, hfilter, heq⟩ := List.mem_map.mp hmem
    obtain ⟨rfl, rfl⟩ := Prod.mk.inj heq
    obtain ⟨hzip, hraw⟩ := List.mem_filter.mp hfilter
    exact ⟨a, hzip, by simpa using hraw, rfl⟩
  · intro hmem
    obtain ⟨a, hzip, hraw, rfl⟩ := hmem
    exact List.mem_map.mpr ⟨(name, a), List.mem_filter.mpr ⟨hzip, by simpa using hraw⟩, rfl⟩

/-- As many parameters as arguments are paired, each with the argument at its place. -/
theorem nodup_zip (hnodup : h.params.Nodup) (hlength : r.call.args.length = h.params.length) :
    ((h.params.zip r.call.args).map Prod.fst).Nodup := by
  rwa [List.map_fst_zip (Nat.le_of_eq hlength.symm)]

theorem nodup_bindings (hnodup : h.params.Nodup)
    (hlength : r.call.args.length = h.params.length) :
    ((bindings h r).map Prod.fst).Nodup := by
  have hsub : ((h.params.zip r.call.args).filter fun (param, a) => a.raw ≠ "$" ++ param).Sublist
      (h.params.zip r.call.args) := List.filter_sublist
  unfold bindings
  rw [List.map_map]
  exact (nodup_zip hnodup hlength).sublist (hsub.map Prod.fst)

/-- Each parameter is replaced by the argument at its place, unless it is passed on. -/
theorem get?_bind (hnodup : h.params.Nodup) (hbind : h.bind r = .ok mapping) {name : String}
    {a : Argument} (hmem : (name, a) ∈ h.params.zip r.call.args) :
    mapping.get? name = if a.raw = "$" ++ name then none else some ⟨a.source, a.raw⟩ := by
  obtain ⟨hlength, rfl⟩ := bind_eq_ok.mp hbind
  by_cases hraw : a.raw = "$" ++ name
  · rw [if_pos hraw]
    refine Dict.get?_insertAll_of_not_mem ?_ []
    intro hname
    obtain ⟨⟨_, sub⟩, hsub, rfl⟩ := List.mem_map.mp hname
    obtain ⟨a', hmem', hraw', -⟩ := mem_bindings_iff.mp hsub
    have heq := List.inj_on_of_nodup_map (nodup_zip hnodup hlength) hmem hmem' rfl
    obtain rfl := (Prod.mk.inj heq).2
    exact hraw' hraw
  · rw [if_neg hraw]
    exact Dict.get?_insertAll_of_mem (nodup_bindings hnodup hlength)
      (mem_bindings_iff.mpr ⟨a, hmem, hraw, rfl⟩) []

/-- What is replaced is a parameter, and it becomes the argument at its place. -/
theorem exists_of_get?_bind (hbind : h.bind r = .ok mapping) {name : String} {sub : Substitution}
    (hget : mapping.get? name = some sub) :
    ∃ a, (name, a) ∈ h.params.zip r.call.args ∧ sub = ⟨a.source, a.raw⟩ := by
  obtain ⟨-, rfl⟩ := bind_eq_ok.mp hbind
  rcases Dict.mem_of_get?_insertAll hget with hmem | hnil
  · obtain ⟨a, hzip, -, hsub⟩ := mem_bindings_iff.mp hmem
    exact ⟨a, hzip, hsub⟩
  · cases hnil

end

end FragmentHead

end Casebook
