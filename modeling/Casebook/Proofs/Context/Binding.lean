import Casebook.Context.Arguments
import Casebook.Proofs.Computation
import Mathlib.Data.List.Nodup
import Mathlib.Data.Nat.Notation

/-!
# Binding arguments to a signature

The arguments of a call are bound in three passes: those given by position are laid out, keywords
are put into the places they name, and what fills the places from the left is read off. This file
says what comes of it without passes and places. `Signature.given` lists every value that a call
gives to a parameter, by position or by keyword; a call is bound if no parameter is given two, if
the parameters that are given one are the leading ones, at least the required ones, and if keywords
that name no parameter are taken. The bound values are those that were given, in the order of the
parameters, so it does not matter which of them were given by keyword, nor in which order.
-/

namespace Casebook.Signature

open Computation

variable (s : Signature)

/-- The keyword arguments that name no parameter, in the order of the call. -/
def others (named : List (String × Value)) : List (String × Value) :=
  named.filter fun a => a.1 ∉ s.params

/-- The values of the keyword arguments that name the parameter at a position. -/
def keyed (named : List (String × Value)) (i : ℕ) : List Value :=
  (named.filter fun a => s.params[i]? = some a.1).map Prod.snd

/-- All values that a call gives to the parameter at a position. -/
def given (args : Arguments) (i : ℕ) : List Value :=
  args.positional[i]?.toList ++ s.keyed args.named i

/-- The arguments of a call can be bound. -/
structure Fits (args : Arguments) : Prop where
  atMost : args.positional.length ≤ s.params.length
  /-- No parameter is given twice, be it by position and by keyword or by two keywords. -/
  once : ∀ i < s.params.length, (s.given args i).length ≤ 1
  allowed : ∀ a ∈ args.named, a.1 ∉ s.params → s.keywords = true
  /-- The parameters that are given are the leading ones, and the required ones are among them. -/
  leading : ∃ n, s.required ≤ n ∧ n ≤ s.params.length ∧
    ∀ i < s.params.length, s.given args i ≠ [] ↔ i < n

/-- Arguments are bound to values: each parameter to what it is given, as far as values go, and the
other keywords as they are. -/
structure Binds (args out : Arguments) : Prop where
  atMost : args.positional.length ≤ s.params.length
  allowed : ∀ a ∈ args.named, a.1 ∉ s.params → s.keywords = true
  given_eq : ∀ i, s.given args i = out.positional[i]?.toList
  required_le : s.required ≤ out.positional.length
  named_eq : out.named = s.others args.named

variable {s}

/-! ## Places -/

/-- The value at a place, if it is filled. -/
def held (values : List (Option Value)) (i : ℕ) : Option Value :=
  values[i]?.join

theorem held_set {values : List (Option Value)} {i : ℕ} (hi : i < values.length) (v : Value)
    (j : ℕ) : held (values.set i (some v)) j = if i = j then some v else held values j := by
  unfold held
  by_cases hij : i = j
  · subst hij
    rw [List.getElem?_set_self hi, if_pos rfl]
    rfl
  · rw [List.getElem?_set_ne hij, if_neg hij]

theorem held_ext {values values' : List (Option Value)} (hlength : values.length = values'.length)
    (h : ∀ i, held values i = held values' i) : values = values' := by
  refine List.ext_getElem hlength fun i hi hi' => ?_
  have hheld := h i
  rwa [held, held, List.getElem?_eq_getElem hi, List.getElem?_eq_getElem hi'] at hheld

/-- Values given by position fill the first places. -/
theorem held_positional (values : List Value) (n i : ℕ) :
    held (values.map some ++ List.replicate n none) i = values[i]? := by
  unfold held
  rcases Nat.lt_or_ge i values.length with hi | hi
  · rw [List.getElem?_append_left (by rwa [List.length_map]), List.getElem?_map,
      List.getElem?_eq_getElem hi]
    rfl
  · rw [List.getElem?_append_right (by rwa [List.length_map]), List.getElem?_replicate,
      List.getElem?_eq_none hi]
    split <;> rfl

theorem any_isSome_eq_false_iff {values : List (Option Value)} :
    values.any Option.isSome = false ↔ ∀ i, held values i = none := by
  induction values with
  | nil => simp [held]
  | cons value rest ih =>
    have hcons : (∀ i, held (value :: rest) i = none) ↔ value = none ∧ ∀ i, held rest i = none :=
      Nat.and_forall_add_one.symm
    rw [hcons, ← ih, List.any_cons, Bool.or_eq_false_iff, Option.isSome_eq_false_iff,
      Option.isNone_iff_eq_none]

/-- The values that fill the places from the left are read off if no place behind a gap is
filled. -/
theorem leading_eq_ok_iff {function : String} {values : List (Option Value)} {out : List Value} :
    s.leading function values = .ok out ↔ ∀ i, held values i = out[i]? := by
  have hleading : s.leading function values = .ok out ↔
      (values.dropWhile Option.isSome).any Option.isSome = false ∧
        (values.takeWhile Option.isSome).filterMap id = out := by
    unfold leading
    by_cases hgap : (values.dropWhile Option.isSome).any Option.isSome = true
    · simp [hgap]
    · simp [hgap]
  rw [hleading]
  clear hleading
  induction values generalizing out with
  | nil => simp [held, List.ext_getElem?_iff, eq_comm]
  | cons value rest ih =>
    cases value with
    | none =>
      -- Nothing is read off in front of a gap, so nothing may be behind it.
      rw [List.dropWhile_cons_of_neg (by simp), List.takeWhile_cons_of_neg (by simp),
        any_isSome_eq_false_iff]
      cases out with
      | nil => simp
      | cons w out => exact iff_of_false (by simp) fun h => by cases h 0
    | some v =>
      rw [List.dropWhile_cons_of_pos rfl, List.takeWhile_cons_of_pos rfl]
      cases out with
      | nil => exact iff_of_false (by simp) fun h => by cases h 0
      | cons w out =>
        have hcons : (∀ i, held (some v :: rest) i = (w :: out)[i]?) ↔
            some v = some w ∧ ∀ i, held rest i = out[i]? := Nat.and_forall_add_one.symm
        have hread : (some v :: rest.takeWhile Option.isSome).filterMap id =
            v :: (rest.takeWhile Option.isSome).filterMap id := rfl
        rw [hcons, hread, List.cons.injEq, Option.some.injEq]
        exact and_left_comm.trans (and_congr_right fun _ => ih)

/-! ## Keywords -/

theorem keyed_append (named more : List (String × Value)) (i : ℕ) :
    s.keyed (named ++ more) i = s.keyed named i ++ s.keyed more i := by
  rw [keyed, List.filter_append, List.map_append]
  rfl

theorem others_append (named more : List (String × Value)) :
    s.others (named ++ more) = s.others named ++ s.others more :=
  List.filter_append ..

theorem keyed_singleton (a : String × Value) (i : ℕ) :
    s.keyed [a] i = if s.params[i]? = some a.1 then [a.2] else [] := by
  unfold keyed
  split <;> simp [*]

theorem others_singleton (a : String × Value) :
    s.others [a] = if a.1 ∈ s.params then [] else [a] := by
  unfold others
  split <;> simp [*]

variable (s) in
/-- Keywords were put into places: each holds what it held or what a keyword gives it, and nothing
is lost. -/
structure Fills (named : List (String × Value)) (slots slots' : Slots) : Prop where
  allowed : ∀ a ∈ named, a.1 ∉ s.params → s.keywords = true
  length_eq : slots'.values.length = slots.values.length
  held_eq : ∀ i, (held slots'.values i).toList = (held slots.values i).toList ++ s.keyed named i
  extra_eq : slots'.extra = slots.extra ++ s.others named

section Places

variable {function : String} {slots mid slots' : Slots} {named more : List (String × Value)}

theorem fills_nil (slots : Slots) : s.Fills [] slots slots :=
  ⟨nofun, rfl, fun _ => (List.append_nil _).symm, (List.append_nil _).symm⟩

/-- What the places hold in the end is determined. -/
theorem Fills.unique (h : s.Fills named slots mid) (h' : s.Fills named slots slots') :
    mid = slots' := by
  obtain ⟨values, extra⟩ := mid
  obtain ⟨values', extra'⟩ := slots'
  have hvalues : values = values' := by
    refine held_ext (h.length_eq.trans h'.length_eq.symm) fun i => Option.ext fun v => ?_
    rw [← Option.mem_toList, ← Option.mem_toList, h.held_eq, h'.held_eq]
  have hextra : extra = extra' := h.extra_eq.trans h'.extra_eq.symm
  rw [hvalues, hextra]

/-- Keywords that were put into places already may be left out. -/
theorem Fills.append_iff (h : s.Fills named slots mid) :
    s.Fills (named ++ more) slots slots' ↔ s.Fills more mid slots' := by
  constructor
  · intro hall
    refine ⟨fun a ha => hall.allowed a (List.mem_append_right named ha),
      hall.length_eq.trans h.length_eq.symm, fun i => ?_, ?_⟩
    · rw [hall.held_eq, h.held_eq, keyed_append, List.append_assoc]
    · rw [hall.extra_eq, h.extra_eq, others_append, List.append_assoc]
  · intro hmore
    refine ⟨List.forall_mem_append.mpr ⟨h.allowed, hmore.allowed⟩,
      hmore.length_eq.trans h.length_eq, fun i => ?_, ?_⟩
    · rw [hmore.held_eq, h.held_eq, keyed_append, List.append_assoc]
    · rw [hmore.extra_eq, h.extra_eq, others_append, List.append_assoc]

/-- A keyword is put into the place it names, which must be free, or behind the other keywords if it
names none and such keywords are taken. -/
theorem place_cases (hparams : s.params.Nodup) (hlength : slots.values.length = s.params.length)
    (function : String) (a : String × Value) :
    (∃ mid, s.place function slots a = .ok mid ∧ s.Fills [a] slots mid) ∨
      (∃ e, s.place function slots a = .error e) ∧
        ((a.1 ∉ s.params ∧ s.keywords = false) ∨
          ∃ i, 1 < ((held slots.values i).toList ++ s.keyed [a] i).length) := by
  unfold place
  cases hindex : s.params.idxOf? a.1 with
  | none =>
    have hmem : a.1 ∉ s.params := List.idxOf?_eq_none_iff.mp hindex
    have hkeyed (i : ℕ) : s.keyed [a] i = [] := by
      rw [keyed_singleton, if_neg fun h => hmem (List.mem_of_getElem? h)]
    have hothers : s.others [a] = [a] := by rw [others_singleton, if_neg hmem]
    cases hkeywords : s.keywords with
    | true =>
      refine .inl ⟨_, rfl, fun _ _ _ => hkeywords, rfl, fun i => ?_, ?_⟩
      · rw [hkeyed, List.append_nil]
      · rw [hothers]
    | false => exact .inr ⟨⟨_, rfl⟩, .inl ⟨hmem, rfl⟩⟩
  | some index =>
    obtain ⟨hlt, hget, -⟩ := List.idxOf?_eq_some_iff.mp hindex
    have hmem : a.1 ∈ s.params := hget ▸ List.getElem_mem hlt
    have hkeyed (i : ℕ) : s.keyed [a] i = if index = i then [a.2] else [] := by
      have hiff : s.params[i]? = some a.1 ↔ index = i := by
        rw [← hget, ← List.getElem?_eq_getElem hlt, eq_comm, List.getElem?_inj hlt hparams]
      rw [keyed_singleton]
      simp only [hiff]
    have hothers : s.others [a] = [] := by rw [others_singleton, if_pos hmem]
    dsimp only
    cases hheld : slots.values[index]?.join with
    | some v =>
      -- The parameter would be given two values.
      refine .inr ⟨⟨_, rfl⟩, .inr ⟨index, ?_⟩⟩
      rw [held, hheld, hkeyed, if_pos rfl]
      exact Nat.lt_succ_self 1
    | none =>
      refine .inl ⟨_, rfl, fun b hb hother => ?_, List.length_set, fun i => ?_, ?_⟩
      · rw [List.mem_singleton.mp hb] at hother
        exact absurd hmem hother
      · rw [held_set (hlength ▸ hlt), hkeyed]
        split
        · next heq =>
          rw [← heq, held, hheld]
          rfl
        · exact (List.append_nil _).symm
      · rw [hothers, List.append_nil]

/-- The keywords of a call are put into their places one after another. The induction is on the
keywords. -/
theorem foldlM_place_eq_ok_iff (hparams : s.params.Nodup)
    (hlength : slots.values.length = s.params.length) :
    named.foldlM (s.place function) slots = .ok slots' ↔ s.Fills named slots slots' := by
  induction named generalizing slots with
  | nil =>
    have hfills := fills_nil (s := s) slots
    refine ⟨fun h => ?_, fun h => congrArg Except.ok (hfills.unique h)⟩
    cases h
    exact hfills
  | cons a rest ih =>
    rw [List.foldlM_cons]
    rcases place_cases hparams hlength function a with
      ⟨mid, hplace, hfills⟩ | ⟨⟨e, hplace⟩, hno⟩
    · rw [hplace]
      exact (ih (hfills.length_eq.trans hlength)).trans hfills.append_iff.symm
    · rw [hplace]
      refine iff_of_false nofun fun h => ?_
      rcases hno with ⟨hother, hkeywords⟩ | ⟨i, hi⟩
      · have hallowed := h.allowed a List.mem_cons_self hother
        rw [hkeywords] at hallowed
        cases hallowed
      · -- What a place holds in the end is at most one value.
        have hone : (held slots'.values i).toList.length ≤ 1 := Option.length_toList_le
        rw [h.held_eq, ← List.singleton_append, keyed_append, ← List.append_assoc,
          List.length_append] at hone
        omega

end Places

/-! ## Bound arguments -/

variable {function : String} {args out : Arguments}

theorem given_eq_nil_of_le (h : args.positional.length ≤ s.params.length) {i : ℕ}
    (hi : s.params.length ≤ i) : s.given args i = [] := by
  rw [given, keyed, List.getElem?_eq_none (Nat.le_trans h hi), List.getElem?_eq_none hi]
  simp

variable (s) in
/-- The places that values given by position are laid out in. -/
def laidOut (values : List Value) (extra : List (String × Value)) : Slots :=
  ⟨values.map some ++ List.replicate (s.params.length - values.length) none, extra⟩

theorem length_laidOut {values : List Value} {extra : List (String × Value)}
    (h : values.length ≤ s.params.length) :
    (s.laidOut values extra).values.length = s.params.length := by
  rw [laidOut, List.length_append, List.length_map, List.length_replicate]
  omega

theorem bind_eq_ok_iff_passes :
    s.bind function args = .ok out ↔
      args.positional.length ≤ s.params.length ∧
        ∃ slots, args.named.foldlM (s.place function) (s.laidOut args.positional []) = .ok slots ∧
          s.leading function slots.values = .ok out.positional ∧
          s.required ≤ out.positional.length ∧ out.named = slots.extra := by
  unfold bind
  by_cases hle : args.positional.length ≤ s.params.length
  · rw [if_neg (Nat.not_lt.mpr hle)]
    simp only [hle, true_and]
    refine bind_eq_ok.trans (exists_congr fun slots => and_congr_right fun _ => ?_)
    rw [bind_eq_ok]
    constructor
    · intro h
      obtain ⟨positional, hleading, h⟩ := h
      split at h
      · cases h
      · next hrequired =>
        cases h
        exact ⟨hleading, Nat.not_lt.mp hrequired, rfl⟩
    · intro h
      obtain ⟨hleading, hrequired, hnamed⟩ := h
      refine ⟨out.positional, hleading, ?_⟩
      rw [if_neg (Nat.not_lt.mpr hrequired), ← hnamed]
      rfl
  · rw [if_pos (Nat.not_le.mp hle)]
    exact iff_of_false nofun fun h => hle h.1

/-- There are no more bound values than parameters. -/
theorem Binds.length_le (h : s.Binds args out) : out.positional.length ≤ s.params.length := by
  rw [← Nat.not_lt]
  intro hlt
  have hgiven := h.given_eq s.params.length
  rw [given_eq_nil_of_le h.atMost (Nat.le_refl _), List.getElem?_eq_getElem hlt] at hgiven
  cases hgiven

/-- The arguments of a call are bound to the values that it gives to the parameters. -/
theorem bind_eq_ok_iff (hparams : s.params.Nodup) :
    s.bind function args = .ok out ↔ s.Binds args out := by
  rw [bind_eq_ok_iff_passes]
  constructor
  · intro h
    obtain ⟨hle, slots, hfold, hleading, hrequired, hnamed⟩ := h
    have hfills := (foldlM_place_eq_ok_iff hparams (length_laidOut hle)).mp hfold
    refine ⟨hle, hfills.allowed, fun i => ?_, hrequired, hnamed.trans hfills.extra_eq⟩
    rw [← leading_eq_ok_iff.mp hleading, hfills.held_eq, laidOut, held_positional, given]
  · intro h
    have hlength : (s.laidOut args.positional []).values.length = s.params.length :=
      length_laidOut h.atMost
    refine ⟨h.atMost, s.laidOut out.positional out.named, ?_, ?_, h.required_le, rfl⟩
    · refine (foldlM_place_eq_ok_iff hparams hlength).mpr ⟨h.allowed, ?_, fun i => ?_, h.named_eq⟩
      · rw [hlength, length_laidOut h.length_le]
      · rw [laidOut, laidOut, held_positional, held_positional, ← h.given_eq, given]
    · exact leading_eq_ok_iff.mpr (held_positional _ _)

/-! ## What can be bound -/

theorem Binds.fits (h : s.Binds args out) : s.Fits args where
  atMost := h.atMost
  once i _ := by
    rw [h.given_eq]
    exact Option.length_toList_le
  allowed := h.allowed
  leading := by
    refine ⟨out.positional.length, h.required_le, h.length_le, fun i _ => ?_⟩
    rw [h.given_eq]
    simp

/-- The bound values are what is given to the leading parameters. -/
theorem Fits.exists_binds (h : s.Fits args) : ∃ out, s.Binds args out := by
  obtain ⟨n, hrequired, hn, hleading⟩ := h.leading
  let values : List Value := (List.range n).map fun i => (s.given args i).headD .null
  have hlength : values.length = n := by rw [List.length_map, List.length_range]
  refine ⟨⟨values, s.others args.named⟩, h.atMost, h.allowed, fun i => ?_, ?_, rfl⟩
  · rcases Nat.lt_or_ge i n with hi | hi
    · have hparam := Nat.lt_of_lt_of_le hi hn
      obtain ⟨v, hv⟩ : ∃ v, s.given args i = [v] :=
        List.length_eq_one_iff.mp (Nat.le_antisymm (h.once i hparam)
          (List.length_pos_iff.mpr ((hleading i hparam).mpr hi)))
      rw [List.getElem?_map, List.getElem?_range hi, hv]
      simp [hv]
    · have hgap : s.given args i = [] := by
        rcases Nat.lt_or_ge i s.params.length with hparam | hparam
        · by_contra hgiven
          exact absurd ((hleading i hparam).mp hgiven) (Nat.not_lt.mpr hi)
        · exact given_eq_nil_of_le h.atMost hparam
      rw [List.getElem?_eq_none (hlength ▸ hi), hgap]
      rfl
  · exact hlength ▸ hrequired

/-- Values that were bound are bound to themselves. -/
theorem Binds.idem (h : s.Binds args out) : s.Binds out out where
  atMost := h.length_le
  allowed a ha hother := by
    rw [h.named_eq, others] at ha
    exact h.allowed a (List.mem_of_mem_filter ha) hother
  given_eq i := by
    have hkeyed : s.keyed out.named i = [] := by
      rw [h.named_eq, keyed, others, List.filter_filter, List.map_eq_nil_iff,
        List.filter_eq_nil_iff]
      intro a _ hboth
      simp only [Bool.and_eq_true, decide_eq_true_eq] at hboth
      exact hboth.2 (List.mem_of_getElem? hboth.1)
    rw [given, hkeyed, List.append_nil]
  required_le := h.required_le
  named_eq := by
    rw [h.named_eq, others, others, List.filter_filter]
    simp only [Bool.and_self]

/-! ## Other ways to write a call -/

/-- Two calls give each parameter the same values, and the same other keywords. -/
structure Agree (s : Signature) (args args' : Arguments) : Prop where
  given : ∀ i, (s.given args i).Perm (s.given args' i)
  others : s.others args.named = s.others args'.named

theorem Agree.symm {args' : Arguments} (h : s.Agree args args') : s.Agree args' args :=
  ⟨fun i => (h.given i).symm, h.others.symm⟩

theorem Agree.binds {args' : Arguments} (h : s.Agree args args')
    (hle : args'.positional.length ≤ s.params.length) (hbinds : s.Binds args out) :
    s.Binds args' out where
  atMost := hle
  allowed a ha hother := by
    have hmem : a ∈ s.others args'.named := List.mem_filter.mpr ⟨ha, by simpa using hother⟩
    rw [← h.others] at hmem
    exact hbinds.allowed a (List.mem_of_mem_filter hmem) hother
  given_eq i := by
    -- A list of at most one value has no other arrangement.
    have hperm := h.given i
    rw [hbinds.given_eq] at hperm
    cases hvalue : out.positional[i]? with
    | none =>
      rw [hvalue] at hperm
      exact List.nil_perm.mp hperm
    | some v =>
      rw [hvalue] at hperm
      exact (List.singleton_perm.mp hperm).symm
  required_le := hbinds.required_le
  named_eq := hbinds.named_eq.trans h.others

/-- Values with the names of the parameters from a position on are given to these. -/
theorem keyed_zip_drop (hparams : s.params.Nodup) {k : ℕ} {values : List Value}
    (hle : k + values.length ≤ s.params.length) (i : ℕ) :
    s.keyed ((s.params.drop k).zip values) i = if k ≤ i then values[i - k]?.toList else [] := by
  induction values generalizing k with
  | nil =>
    rw [List.zip_nil_right]
    simp [keyed]
  | cons v rest ih =>
    rw [List.length_cons] at hle
    have hk : k < s.params.length := by omega
    have hiff : s.params[i]? = some s.params[k] ↔ k = i := by
      rw [← List.getElem?_eq_getElem hk, eq_comm, List.getElem?_inj hk hparams]
    rw [List.drop_eq_getElem_cons hk, List.zip_cons_cons, ← List.singleton_append, keyed_append,
      keyed_singleton, ih (by omega)]
    simp only [hiff]
    rcases Nat.lt_trichotomy i k with hi | rfl | hi
    · rw [if_neg (by omega), if_neg (by omega), if_neg (by omega)]
      rfl
    · rw [if_pos rfl, if_neg (by omega), if_pos (Nat.le_refl _), Nat.sub_self]
      rfl
    · obtain ⟨j, rfl⟩ := Nat.exists_eq_add_of_lt hi
      rw [if_neg (by omega), if_pos (by omega), if_pos (by omega),
        show k + j + 1 - (k + 1) = j by omega, show k + j + 1 - k = j + 1 by omega]
      rfl

/-- The last values given by position may be given by keyword, and the keywords that name parameters
may be given in any order. -/
theorem agree_of_perm (hparams : s.params.Nodup) {first last : List Value}
    {named named' : List (String × Value)} (hle : first.length + last.length ≤ s.params.length)
    (hperm : named'.Perm ((s.params.drop first.length).zip last ++ named))
    (hothers : s.others named' = s.others named) :
    s.Agree ⟨first, named'⟩ ⟨first ++ last, named⟩ where
  given i := by
    have hlaid : first[i]?.toList ++ s.keyed ((s.params.drop first.length).zip last) i =
        (first ++ last)[i]?.toList := by
      rw [keyed_zip_drop hparams hle]
      rcases Nat.lt_or_ge i first.length with hi | hi
      · rw [if_neg (by omega), List.append_nil, List.getElem?_append_left hi]
      · rw [if_pos hi, List.getElem?_eq_none hi, List.getElem?_append_right hi]
        rfl
    have hkeyed : (s.keyed named' i).Perm
        (s.keyed ((s.params.drop first.length).zip last) i ++ s.keyed named i) := by
      rw [← keyed_append]
      exact (hperm.filter _).map _
    rw [given, given, ← hlaid, List.append_assoc]
    exact hkeyed.append_left _
  others := hothers

/-- Binding is by position first and then by keyword, with nothing lost and nothing doubled. A call
can be bound if it has no more values by position than there are parameters, gives no parameter
twice, names only parameters unless other keywords are taken, and gives the leading parameters, the
required ones among them, and no others. Then each parameter is bound to what it was given, the
other keywords are left in their order, and binding what was bound changes nothing. The last values
given by position may be given by keyword instead, among the other keywords in any order as long as
those that name no parameter keep theirs, and the outcome is the same. -/
theorem bind_iff_fits (hparams : s.params.Nodup) (function : String) :
    (∀ args, (∃ out, s.bind function args = .ok out) ↔ s.Fits args) ∧
      (∀ args out, s.bind function args = .ok out →
        (∀ i, s.given args i = out.positional[i]?.toList) ∧
          out.named = s.others args.named ∧ s.bind function out = .ok out) ∧
      ∀ first last named named', first.length + last.length ≤ s.params.length →
        named'.Perm ((s.params.drop first.length).zip last ++ named) →
          s.others named' = s.others named → ∀ out,
            s.bind function ⟨first, named'⟩ = .ok out ↔
              s.bind function ⟨first ++ last, named⟩ = .ok out := by
  refine ⟨fun args => ?_, fun args out h => ?_,
    fun first last named named' hle hperm hothers out => ?_⟩
  · simp only [bind_eq_ok_iff hparams]
    exact ⟨fun ⟨out, h⟩ => h.fits, Fits.exists_binds⟩
  · have hbinds := (bind_eq_ok_iff hparams).mp h
    exact ⟨hbinds.given_eq, hbinds.named_eq, (bind_eq_ok_iff hparams).mpr hbinds.idem⟩
  · have hagree := agree_of_perm hparams hle hperm hothers
    rw [bind_eq_ok_iff hparams, bind_eq_ok_iff hparams]
    refine ⟨hagree.binds ?_, hagree.symm.binds ?_⟩
    · exact List.length_append ▸ hle
    · exact Nat.le_trans (Nat.le_add_right _ _) hle

/-- Two of three parameters are given by keyword, the last one first, behind a keyword that names
none. -/
theorem bind_iff_fits_backwards :
    let s : Signature := ⟨["name", "regx", "index"], 2, true⟩
    let args : Arguments := ⟨[.string "n"],
      [("more", .bool true), ("index", .nat 3), ("regx", .string "r")]⟩
    s.params.Nodup ∧ s.Fits args ∧
      s.bind "DyStrData" args =
        .ok ⟨[.string "n", .string "r", .nat 3], [("more", .bool true)]⟩ := by
  intro s args
  have hparams : s.params.Nodup := by decide
  obtain ⟨hfits, -, hmoved⟩ := bind_iff_fits hparams "DyStrData"
  let inOrder : List (String × Value) :=
    [("regx", .string "r"), ("index", .nat 3), ("more", .bool true)]
  have hbind : s.bind "DyStrData" args =
      .ok ⟨[.string "n", .string "r", .nat 3], [("more", .bool true)]⟩ :=
    (hmoved [.string "n"] [.string "r", .nat 3] [("more", .bool true)] args.named (by decide)
      inOrder.reverse_perm rfl _).mpr rfl
  exact ⟨hparams, (hfits args).mp ⟨_, hbind⟩, hbind⟩

end Casebook.Signature
