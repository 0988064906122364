import Casebook.Proofs.Composition.Expansion
import Casebook.Proofs.Dictionary
import Casebook.Proofs.Fragment.Binding

/-!
# Keywords in references

References are written like calls, so their arguments may have keywords. Where a verb is called, an
argument with a keyword goes to the parameter of that name. A reference is bound by position alone:
its keywords are read and then ignored.

`inOrder` puts the arguments of a reference in the order of the parameters that are their keywords,
which is how they are meant. This file compares what binding makes of a reference as it is written
with what it makes of it in that order: they are the same where each argument is written like the
one that has its keyword, so with different arguments only the order of the parameters will do.
-/

namespace Casebook.FragmentHead

section

variable (h : FragmentHead) (r : Reference)

/-- What a parameter is replaced by if it is bound to an argument. -/
def replacement? (param : String) (a : Argument) : Option Substitution :=
  if a.raw = "$" ++ param then none else some ⟨a.source, a.raw⟩

/-- All arguments have keywords, and these are the parameters, each once. -/
def IsKeyed : Prop :=
  (r.call.args.map Argument.key).Perm (h.params.map some)

instance : Decidable (IsKeyed h r) :=
  inferInstanceAs (Decidable (List.Perm _ _))

/-- The argument that has a keyword. -/
def argument? (name : String) : Option Argument :=
  r.call.args.find? fun a => a.key = some name

/-- A reference with its arguments in the order of the parameters that are their keywords. -/
def inOrder : Reference :=
  { r with call := { r.call with args := h.params.filterMap (argument? r) } }

end

/-- Parameters are replaced by the same only if the arguments are written alike. -/
theorem raw_eq_of_replacement? {param : String} {a a' : Argument}
    (h : replacement? param a = replacement? param a') : a.raw = a'.raw := by
  unfold replacement? at h
  split at h
  · next hpassed =>
    split at h
    · next hpassed' => rw [hpassed, hpassed']
    · cases h
  · split at h
    · cases h
    · exact congrArg Substitution.literal (Option.some.inj h)

/-! ## Arguments in order -/

theorem getElem_mem_zip {params : List String} {args : List Argument} {i : ℕ}
    (hi : i < params.length) (hi' : i < args.length) : (params[i], args[i]) ∈ params.zip args := by
  have hlt : i < (params.zip args).length := by
    rw [List.length_zip]
    omega
  have hget : (params.zip args)[i] = (params[i], args[i]) := List.getElem_zip
  exact hget ▸ List.getElem_mem hlt

/-- Where the keywords are the parameters in order, each parameter is paired with its argument. -/
theorem mem_zip_iff {params : List String} {args : List Argument}
    (hkeys : args.map Argument.key = params.map some) {name : String} {a : Argument} :
    (name, a) ∈ params.zip args ↔ a ∈ args ∧ a.key = some name := by
  induction args generalizing params with
  | nil => simp
  | cons first rest ih =>
    cases params with
    | nil => cases hkeys
    | cons param params =>
      obtain ⟨hfirst, hrest⟩ := List.cons.inj hkeys
      rw [List.zip_cons_cons, List.mem_cons, List.mem_cons, ih hrest, Prod.mk.injEq]
      constructor
      · rintro (⟨rfl, rfl⟩ | ⟨hmem, hkey⟩)
        · exact ⟨.inl rfl, hfirst⟩
        · exact ⟨.inr hmem, hkey⟩
      · rintro ⟨rfl | hmem, hkey⟩
        · exact .inl ⟨Option.some.inj (hkey.symm.trans hfirst), rfl⟩
        · exact .inr ⟨hmem, hkey⟩

section

variable {h : FragmentHead} {r r' : Reference}

namespace IsKeyed

variable (hkeyed : IsKeyed h r) (hnodup : h.params.Nodup)

include hkeyed

theorem length_eq : r.call.args.length = h.params.length := by
  simpa using List.Perm.length_eq hkeyed

include hnodup

theorem nodup_keys : (r.call.args.map Argument.key).Nodup :=
  List.Perm.nodup_iff hkeyed |>.mpr (hnodup.map fun _ _ => Option.some.inj)

/-- An argument is told by its keyword. -/
theorem argument?_eq_some_iff {name : String} {a : Argument} :
    argument? r name = some a ↔ a ∈ r.call.args ∧ a.key = some name := by
  constructor
  · intro hfind
    have hkey := List.find?_some hfind
    exact ⟨List.mem_of_find?_eq_some hfind, by simpa using hkey⟩
  · rintro ⟨hmem, hkey⟩
    cases hfind : argument? r name with
    | none =>
      have hnone := List.find?_eq_none.mp hfind a hmem
      simp [hkey] at hnone
    | some a' =>
      have hkey' := List.find?_some hfind
      rw [decide_eq_true_eq, ← hkey] at hkey'
      rw [List.inj_on_of_nodup_map (hkeyed.nodup_keys hnodup) (List.mem_of_find?_eq_some hfind) hmem
        hkey']

theorem exists_argument? {param : String} (hparam : param ∈ h.params) :
    ∃ a, argument? r param = some a := by
  have hmem : some param ∈ r.call.args.map Argument.key :=
    (List.Perm.mem_iff hkeyed).mpr (List.mem_map_of_mem hparam)
  obtain ⟨a, ha, hkey⟩ := List.mem_map.mp hmem
  exact ⟨a, (hkeyed.argument?_eq_some_iff hnodup).mpr ⟨ha, hkey⟩⟩

/-- Once the arguments are in order, their keywords are the parameters in order. -/
theorem keys_inOrder : (h.inOrder r).call.args.map Argument.key = h.params.map some := by
  show (h.params.filterMap (argument? r)).map Argument.key = _
  rw [List.map_filterMap, ← List.filterMap_eq_map]
  refine List.filterMap_congr fun param hparam => ?_
  obtain ⟨a, ha⟩ := hkeyed.exists_argument? hnodup hparam
  rw [ha, Option.map_some, Function.comp_apply,
    ((hkeyed.argument?_eq_some_iff hnodup).mp ha).2]

theorem mem_inOrder_iff {a : Argument} : a ∈ (h.inOrder r).call.args ↔ a ∈ r.call.args := by
  show a ∈ h.params.filterMap (argument? r) ↔ _
  rw [List.mem_filterMap]
  constructor
  · rintro ⟨param, -, ha⟩
    exact ((hkeyed.argument?_eq_some_iff hnodup).mp ha).1
  · intro ha
    have hkey : a.key ∈ h.params.map some := (List.Perm.mem_iff hkeyed).mp (List.mem_map_of_mem ha)
    obtain ⟨param, hparam, hkey⟩ := List.mem_map.mp hkey
    exact ⟨param, hparam, (hkeyed.argument?_eq_some_iff hnodup).mpr ⟨ha, hkey.symm⟩⟩

theorem inOrder : IsKeyed h (h.inOrder r) :=
  .of_eq (hkeyed.keys_inOrder hnodup)

/-- All orders of the keywords are put into one. -/
theorem inOrder_eq_of_perm (hperm : r'.call.args.Perm r.call.args) :
    (h.inOrder r').call.args = (h.inOrder r).call.args := by
  have hkeyed' : IsKeyed h r' := (hperm.map Argument.key).trans hkeyed
  refine List.filterMap_congr fun param _ => Option.ext fun a => ?_
  rw [hkeyed'.argument?_eq_some_iff hnodup, hkeyed.argument?_eq_some_iff hnodup, hperm.mem_iff]

end IsKeyed

/-! ## Binding by position and by keyword -/

variable {mapping keyed : Dict Substitution}

/-- Binding makes a dictionary in order. -/
theorem ordered_of_bind (hbind : h.bind r = .ok mapping) : mapping.Ordered := by
  obtain ⟨-, rfl⟩ := bind_eq_ok.mp hbind
  exact Dict.ordered_ofList _

/-- References are bound alike if each parameter is replaced by the same. -/
theorem eq_of_bind (hbind : h.bind r = .ok mapping) (hbind' : h.bind r' = .ok keyed)
    (heq : ∀ param ∈ h.params, mapping.get? param = keyed.get? param) : mapping = keyed := by
  refine (ordered_of_bind hbind).ext (ordered_of_bind hbind') fun name => ?_
  by_cases hname : name ∈ h.params
  · exact heq name hname
  · -- What is no parameter is not replaced.
    have hnone {r : Reference} {mapping : Dict Substitution} (hbind : h.bind r = .ok mapping) :
        mapping.get? name = none := by
      cases hget : mapping.get? name with
      | none => rfl
      | some sub =>
        obtain ⟨a, hzip, -⟩ := exists_of_get?_bind hbind hget
        exact absurd (List.of_mem_zip hzip).1 hname
    rw [hnone hbind, hnone hbind']

/-- In the order of its keywords a reference binds each parameter to the argument with its keyword. -/
theorem get?_bind_inOrder (hnodup : h.params.Nodup) (hkeyed : IsKeyed h r)
    (hbind : h.bind (h.inOrder r) = .ok keyed) {param : String} {a : Argument}
    (ha : a ∈ r.call.args) (hkey : a.key = some param) :
    keyed.get? param = replacement? param a := by
  refine get?_bind hnodup hbind ((mem_zip_iff (hkeyed.keys_inOrder hnodup)).mpr ⟨?_, hkey⟩)
  exact (hkeyed.mem_inOrder_iff hnodup).mpr ha

/-- A reference comes to the same as in the order of its keywords if the argument at the place of
each parameter is written like the one with its keyword. -/
theorem eq_inOrder_iff (hnodup : h.params.Nodup) (hkeyed : IsKeyed h r)
    (hbind : h.bind r = .ok mapping) (hbind' : h.bind (h.inOrder r) = .ok keyed) :
    mapping = keyed ↔ ∀ param a a', (param, a) ∈ h.params.zip r.call.args → a' ∈ r.call.args →
      a'.key = some param → replacement? param a = replacement? param a' := by
  have hplace {param : String} {a : Argument} (hzip : (param, a) ∈ h.params.zip r.call.args) :
      mapping.get? param = replacement? param a :=
    get?_bind hnodup hbind hzip
  have hkeyword {param : String} {a : Argument} (ha : a ∈ r.call.args) (hkey : a.key = some param) :
      keyed.get? param = replacement? param a :=
    get?_bind_inOrder hnodup hkeyed hbind' ha hkey
  constructor
  · rintro rfl param a a' hzip ha' hkey
    rw [← hplace hzip, hkeyword ha' hkey]
  · intro heq
    refine eq_of_bind hbind hbind' fun param hparam => ?_
    obtain ⟨a', ha'⟩ := hkeyed.exists_argument? hnodup hparam
    obtain ⟨hmem, hkey⟩ := (hkeyed.argument?_eq_some_iff hnodup).mp ha'
    obtain ⟨i, hi, rfl⟩ := List.getElem_of_mem hparam
    have hzip := getElem_mem_zip hi (by rwa [hkeyed.length_eq])
    rw [hplace hzip, hkeyword hmem hkey]
    exact heq _ _ _ hzip hmem hkey

/-- Where no two arguments are written alike, that leaves the order of the parameters. -/
theorem eq_inOrder_iff_of_nodup (hnodup : h.params.Nodup) (hkeyed : IsKeyed h r)
    (hbind : h.bind r = .ok mapping) (hbind' : h.bind (h.inOrder r) = .ok keyed)
    (hraw : (r.call.args.map Argument.raw).Nodup) :
    mapping = keyed ↔ r.call.args.map Argument.key = h.params.map some := by
  rw [eq_inOrder_iff hnodup hkeyed hbind hbind']
  constructor
  · intro heq
    refine List.ext_getElem (by simpa using hkeyed.length_eq) fun i hi hi' => ?_
    rw [List.getElem_map, List.getElem_map]
    rw [List.length_map] at hi hi'
    obtain ⟨a', ha'⟩ := hkeyed.exists_argument? hnodup (List.getElem_mem hi')
    obtain ⟨ha', hkey⟩ := (hkeyed.argument?_eq_some_iff hnodup).mp ha'
    have hsame := heq _ _ a' (getElem_mem_zip hi' hi) ha' hkey
    rw [List.inj_on_of_nodup_map hraw (List.getElem_mem hi) ha' (raw_eq_of_replacement? hsame), hkey]
  · intro hkeys param a a' hzip ha' hkey
    obtain ⟨ha, hkey'⟩ := (mem_zip_iff hkeys).mp hzip
    rw [List.inj_on_of_nodup_map (hkeyed.nodup_keys hnodup) ha ha' (hkey'.trans hkey.symm)]

end

/-- A reference with keywords is bound by position. If its keywords are the parameters, each once,
then each parameter is replaced by the argument at its place; put in the order of the parameters, the
reference binds each parameter to the argument with its keyword, in whatever order they were written.
The two are the same exactly if each parameter has an argument at its place that is written like the
one with its keyword, and if no two arguments are written alike, exactly if the keywords stand in the
order of the parameters. -/
theorem bind_of_isKeyed {location text : String} {h : FragmentHead}
    (hparse : FragmentHead.parse location text = .ok h) {r : Reference} (hkeyed : IsKeyed h r) :
    ∃ mapping keyed, h.bind r = .ok mapping ∧
      (∀ r', r'.call.args.Perm r.call.args → h.bind (h.inOrder r') = .ok keyed) ∧
      (∀ param a, (param, a) ∈ h.params.zip r.call.args →
        mapping.get? param = replacement? param a) ∧
      (∀ param, ∀ a ∈ r.call.args, a.key = some param →
        keyed.get? param = replacement? param a) ∧
      (mapping = keyed ↔ ∀ param a a', (param, a) ∈ h.params.zip r.call.args →
        a' ∈ r.call.args → a'.key = some param → replacement? param a = replacement? param a') ∧
      ((r.call.args.map Argument.raw).Nodup →
        (mapping = keyed ↔ r.call.args.map Argument.key = h.params.map some)) := by
  have hnodup := (params_of_parse hparse).1
  have hbind : h.bind r = .ok (Dict.ofList (bindings h r)) :=
    bind_eq_ok.mpr ⟨hkeyed.length_eq, rfl⟩
  have hbind' : h.bind (h.inOrder r) = .ok (Dict.ofList (bindings h (h.inOrder r))) :=
    bind_eq_ok.mpr ⟨(hkeyed.inOrder hnodup).length_eq, rfl⟩
  refine ⟨_, _, hbind, fun r' hperm => ?_, fun param a hzip => get?_bind hnodup hbind hzip,
    fun param a ha hkey => get?_bind_inOrder hnodup hkeyed hbind' ha hkey, ?_, fun hraw => ?_⟩
  · have hargs := hkeyed.inOrder_eq_of_perm hnodup hperm
    rw [← hbind', bind, bind, hargs]
  · exact eq_inOrder_iff hnodup hkeyed hbind hbind'
  · exact eq_inOrder_iff_of_nodup hnodup hkeyed hbind hbind' hraw

/-- With the keywords in the order of the parameters they are of no account. -/
theorem bind_of_isKeyed_login :
    ∃ h r mapping, FragmentHead.parse "login.yaml" "login($user, $pwd)" = .ok h ∧
      Reference.parse .api 32 "login(user=admin, pwd=secret)" = .ok r ∧ IsKeyed h r ∧
      h.bind r = .ok mapping ∧ h.bind (h.inOrder r) = .ok mapping := by
  have hread : (do
      let h ← FragmentHead.parse "login.yaml" "login($user, $pwd)"
      let r ← Reference.parse .api 32 "login(user=admin, pwd=secret)"
      return (decide (IsKeyed h r), r.call.args.map Argument.raw, h.params,
        r.call.args.map Argument.key)) =
      .ok (true, ["admin", "secret"], ["user", "pwd"], [some "user", some "pwd"]) := by
    decide +kernel
  obtain ⟨h, hh, hread⟩ := Computation.bind_eq_ok.mp hread
  obtain ⟨r, hr, hread⟩ := Computation.bind_eq_ok.mp hread
  simp only [pure, Except.pure, Except.ok.injEq, Prod.mk.injEq, decide_eq_true_eq] at hread
  obtain ⟨hkeyed, hraws, hparams, hkeys⟩ := hread
  obtain ⟨mapping, keyed, hbind, hbind', -, -, -, hiff⟩ := bind_of_isKeyed hh hkeyed
  have hraw : (r.call.args.map Argument.raw).Nodup := by
    rw [hraws]
    decide
  obtain rfl := (hiff hraw).mpr (by rw [hkeys, hparams]; rfl)
  exact ⟨h, r, mapping, hh, hr, hkeyed, hbind, hbind' r (.refl _)⟩

/-- With the keywords the other way round each parameter gets the argument meant for the other. -/
theorem bind_swaps_keywords :
    ∃ h r mapping, FragmentHead.parse "login.yaml" "login($user, $pwd)" = .ok h ∧
      Reference.parse .api 32 "login(pwd=secret, user=admin)" = .ok r ∧ IsKeyed h r ∧
      Expansion.arguments r = [(some "pwd", "secret", "secret"), (some "user", "admin", "admin")] ∧
      h.bind r = .ok mapping ∧ mapping.get? "user" = some (Substitution.plain "secret") ∧
      mapping.get? "pwd" = some (Substitution.plain "admin") := by
  have hread : (do
      let h ← FragmentHead.parse "login.yaml" "login($user, $pwd)"
      let r ← Reference.parse .api 32 "login(pwd=secret, user=admin)"
      let mapping ← h.bind r
      return decide (IsKeyed h r ∧
        Expansion.arguments r = [(some "pwd", "secret", "secret"), (some "user", "admin", "admin")] ∧
        mapping.get? "user" = some (Substitution.plain "secret") ∧
        mapping.get? "pwd" = some (Substitution.plain "admin"))) = .ok true := by
    decide +kernel
  obtain ⟨h, hh, hread⟩ := Computation.bind_eq_ok.mp hread
  obtain ⟨r, hr, hread⟩ := Computation.bind_eq_ok.mp hread
  obtain ⟨mapping, hmapping, hread⟩ := Computation.bind_eq_ok.mp hread
  obtain ⟨hkeyed, hargs, huser, hpwd⟩ := of_decide_eq_true (Except.ok.inj hread)
  exact ⟨h, r, mapping, hh, hr, hkeyed, hargs, hmapping, huser, hpwd⟩

end Casebook.FragmentHead
