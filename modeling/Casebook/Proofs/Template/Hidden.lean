import Casebook.Proofs.Template.Cutting
import Casebook.Proofs.Template.Deepening

/-!
# Hidden references

Parameters are replaced by a scanner that reads a text on its own, apart from the parser. What the
parser takes for a reference is an occurrence for the scanner too, unless a backslash between quotes
keeps the scanner from looking at a dollar: the parser drops a backslash only in front of the quote
and of another backslash. `places` are the references of a text as the parser reads them, and
`hidden` are those of them that the scanner does not see.

Renaming parameters to other parameters gives a text that parses with room for one more level of
braces. It refers to the new names in the same order exactly if no parameter with a new name is
hidden.
-/

namespace Casebook.Substitution

open Text Template Casebook.Computation

/-! ## Places of references -/

/-- The name that a dollar in front of a text refers to, and the text behind it. -/
def reference? (s : List Char) : Option (List Char × List Char) :=
  match s with
  | '\x7b' :: after =>
    match braced after with
    | .name name rest => some (name, rest)
    | _ => none
  | _ =>
    match word s with
    | ([], _) => none
    | (name, rest) => some (name, rest)

theorem reference?_eq_some_iff {s name rest : List Char} :
    reference? s = some (name, rest) ↔
      ∃ written, Refers name written rest ∧ written ++ rest = '$' :: s := by
  constructor
  · intro h
    unfold reference? at h
    split at h
    · split at h
      · next hbraced =>
        cases h
        exact exists_refers_of_braced hbraced
      · cases h
    · split at h
      · cases h
      · next w r hw hword =>
        cases h
        refine ⟨_, refers_of_word hword hw, ?_⟩
        rw [(word_eq_iff.mp hword).1]
        rfl
  · intro h'
    obtain ⟨written, hrefers, heq⟩ := h'
    rcases hrefers.word_or_braced heq with ⟨hword, hname⟩ | ⟨t, rfl, hbraced⟩
    · obtain ⟨c, after, rfl, hc⟩ := exists_cons_of_word hword hname
      have hbrace (t : List Char) : c :: after ≠ '\x7b' :: t := by
        intro ht
        obtain rfl := (List.cons.inj ht).1
        exact absurd hc (by decide)
      obtain ⟨x, name, rfl⟩ := List.exists_cons_of_ne_nil hname
      unfold reference?
      split
      · next ht => exact absurd ht (hbrace _)
      · rw [hword]
    · simp only [reference?, hbraced]

theorem length_reference?_le {s name rest : List Char} (h : reference? s = some (name, rest)) :
    rest.length ≤ s.length := by
  obtain ⟨written, hrefers, heq⟩ := reference?_eq_some_iff.mp h
  obtain ⟨text, rfl, -⟩ := hrefers.exists_inert
  have hlength := congrArg List.length heq
  simp only [List.length_append, List.length_cons] at hlength
  omega

/-- The references in a text as the parser reads them, in order: how much of the text is left where
each begins, and its name. -/
def places (s : List Char) : List (ℕ × String) :=
  match s with
  | [] => []
  | c :: rest =>
    if c = '$' then
      if rest.head? = some '$' then places rest.tail
      else
        match h : reference? rest with
        | some (name, behind) =>
          have := length_reference?_le h
          ((c :: rest).length, String.ofList name) :: places behind
        | none => places rest
    else places rest
termination_by s.length
decreasing_by
  all_goals simp only [List.length_cons, List.length_tail] at *; omega

section Places

variable {s rest : List Char} {c : Char}

theorem places_nil : places [] = [] := by
  rw [places.eq_def]

theorem places_cons (hc : c ≠ '$') : places (c :: s) = places s := by
  rw [places.eq_def]
  exact if_neg hc

theorem places_dollars : places ('$' :: '$' :: s) = places s := by
  rw [places.eq_def]
  rfl

theorem places_lone (hdollar : s.head? ≠ some '$')
    (hlone : ∀ name written rest, written ++ rest = '$' :: s → ¬Refers name written rest) :
    places ('$' :: s) = places s := by
  rw [places.eq_def]
  simp only [if_true, if_neg hdollar]
  split
  · next name behind h =>
    obtain ⟨written, hrefers, heq⟩ := reference?_eq_some_iff.mp h
    exact absurd hrefers (hlone _ _ _ heq)
  · rfl

theorem places_refers {name written : List Char} (h : Refers name written rest) :
    places (written ++ rest) = ((written ++ rest).length, String.ofList name) :: places rest := by
  obtain ⟨text, rfl, htext, hinert⟩ := h.exists_inert
  have href : reference? (text ++ rest) = some (name, rest) :=
    reference?_eq_some_iff.mpr ⟨_, h, rfl⟩
  have hdollar : (text ++ rest).head? ≠ some '$' := by
    intro hhead
    obtain ⟨t, ht⟩ := List.head?_eq_some_iff.mp hhead
    exact h.ne_dollars (congrArg (List.cons '$') ht)
  rw [List.cons_append, places.eq_def]
  simp only [if_true, if_neg hdollar]
  split
  · next h' =>
    rw [href] at h'
    cases h'
    rfl
  · next h' =>
    rw [href] at h'
    cases h'

theorem places_append_inert {text : List Char} (htext : ∀ c ∈ text, Inert c) :
    places (text ++ s) = places s := by
  induction text with
  | nil => rfl
  | cons c text ih =>
    have hc : c ≠ '$' := by
      intro heq
      subst heq
      exact htext '$' List.mem_cons_self (by decide)
    rw [List.cons_append, places_cons hc, ih fun x hx => htext x (List.mem_cons_of_mem c hx)]

end Places

/-! ## Occurrences -/

/-- How much of a text is left where each of its occurrences begins. -/
def occurrences : List Part → List ℕ
  | [] => []
  | .kept _ :: rest => occurrences rest
  | .occurrence written _ _ :: rest =>
    (written ++ rest.flatMap Part.written).length :: occurrences rest

/-- The names of the references in a text that are no occurrences. -/
def hidden (text : String) : List String :=
  ((places text.toList).filter fun place => place.1 ∉ occurrences (parts text.toList)).map Prod.snd

/-- Occurrences lie in the text that is cut. -/
theorem CutInto.le_of_mem_occurrences {s : List Char} {parts : List Part} (h : CutInto s parts) :
    ∀ n ∈ occurrences parts, n ≤ s.length := by
  induction h with
  | nil => simp [occurrences]
  | @cons s rest part parts first others ih =>
    intro n hn
    have hlt := first.length_lt
    cases part with
    | kept =>
      have := ih n hn
      omega
    | occurrence =>
      rcases List.mem_cons.mp hn with rfl | hn
      · have hwritten := first.written_append
        rw [others.flatMap_written]
        exact Nat.le_of_eq (congrArg List.length hwritten)
      · have := ih n hn
        omega

/-- Where no more of the text is left than behind a part, the occurrences are those of the rest. -/
theorem Cuts.mem_occurrences_cons {s rest : List Char} {part : Part} {others : List Part}
    (first : Cuts s part rest) (more : CutInto rest others) {n : ℕ} (hn : n ≤ rest.length) :
    n ∈ occurrences (part :: others) ↔ n ∈ occurrences others := by
  cases part with
  | kept => rfl
  | occurrence written name inArguments =>
    have hlt := first.length_lt
    have hwritten : written ++ rest = s := first.written_append
    rw [occurrences, more.flatMap_written, hwritten, List.mem_cons]
    exact or_iff_right (by omega)

/-- Text without a dollar and a backslash is cut into its characters. -/
theorem CutInto.of_append_inert {text rest : List Char} {parts : List Part}
    (htext : ∀ c ∈ text, Inert c) (h : CutInto (text ++ rest) parts) :
    ∃ others, parts = text.map (fun c => .kept [c]) ++ others ∧ CutInto rest others := by
  induction text generalizing parts with
  | nil => exact ⟨parts, rfl, h⟩
  | cons c text ih =>
    have hc := htext c List.mem_cons_self
    have hdollar : c ≠ '$' := fun heq => hc (heq ▸ by decide)
    have hbackslash : c ≠ '\\' := fun heq => hc (heq ▸ by decide)
    rw [List.cons_append] at h
    -- The rest is named, so that the cases of the cut can be told apart.
    generalize ht : text ++ rest = t at h
    cases h with
    | cons first others =>
      cases first with
      | dollars => exact absurd rfl hdollar
      | occurrence refers eq =>
        have hhead := refers.head? _ ▸ congrArg List.head? eq
        exact absurd (Option.some.inj hhead) hdollar
      | dollar _ _ _ eq => exact absurd (List.cons.inj eq).1 hdollar
      | escaped => exact absurd rfl hbackslash
      | char =>
        subst ht
        obtain ⟨parts', rfl, h'⟩ := ih (fun x hx => htext x (List.mem_cons_of_mem c hx)) others
        exact ⟨parts', rfl, h'⟩

theorem occurrences_chars (text : List Char) (parts : List Part) :
    occurrences (text.map (fun c => .kept [c]) ++ parts) = occurrences parts := by
  induction text with
  | nil => rfl
  | cons c text ih => exact ih

/-! ## Renaming parameters -/

/-- Each parameter is replaced by another in braces. -/
def inBraces (newNames : Dict String) : Dict Substitution :=
  newNames.mapValues fun q => plain ("$\x7b" ++ q ++ "\x7d")

/-- The new name of a parameter; any other name stays. -/
def newName (newNames : Dict String) (p : String) : String :=
  (newNames.get? p).getD p

/-- The references in a text, and their new names where they are occurrences. -/
def renamings (newNames : Dict String) (seen : List ℕ) (s : List Char) : List (String × String) :=
  (places s).map fun place =>
    (place.2, if place.1 ∈ seen then newName newNames place.2 else place.2)

section

variable {newNames : Dict String} {seen : List ℕ} {s rest : List Char}

theorem renamings_eq {s t : List Char} (h : places s = places t) :
    renamings newNames seen s = renamings newNames seen t :=
  congrArg (List.map _) h

theorem renamings_refers {name written : List Char} (h : Refers name written rest) :
    renamings newNames seen (written ++ rest) =
      (String.ofList name, if (written ++ rest).length ∈ seen then
        newName newNames (String.ofList name) else String.ofList name) ::
          renamings newNames seen rest := by
  rw [renamings, places_refers h]
  rfl

/-- The text that parts become. -/
def replaced (newNames : Dict String) (parts : List Part) : List Char :=
  parts.flatMap (Part.replace (inBraces newNames))

theorem replaced_kept (s : List Char) (parts : List Part) :
    replaced newNames (.kept s :: parts) = s ++ replaced newNames parts :=
  rfl

theorem replaced_chars (text : List Char) (parts : List Part) :
    replaced newNames (text.map (fun c => .kept [c]) ++ parts) =
      text ++ replaced newNames parts := by
  induction text with
  | nil => rfl
  | cons c text ih => exact congrArg (List.cons c) ih

/-- An occurrence stays as it is written or becomes its new name in braces. -/
theorem replace_occurrence (newNames : Dict String) (written : List Char) (name : String)
    (inArguments : Bool) :
    (newNames.get? name = none ∧
      (Part.occurrence written name inArguments).replace (inBraces newNames) = written) ∨
    ∃ q, newNames.get? name = some q ∧
      (Part.occurrence written name inArguments).replace (inBraces newNames) =
        '$' :: '\x7b' :: (q.toList ++ ['\x7d']) := by
  rw [Part.replace, inBraces, Dict.get?_mapValues]
  cases newNames.get? name with
  | none => exact .inl ⟨rfl, rfl⟩
  | some q =>
    refine .inr ⟨q, rfl, ?_⟩
    cases inArguments <;> simp [form, plain]

/-- What an occurrence becomes means nothing behind its dollar. -/
theorem exists_inert_replace (hnames : ∀ p q, newNames.get? p = some q → IsName q)
    {name written : List Char} (h : Refers name written rest) (inArguments : Bool) :
    ∃ text, (Part.occurrence written (String.ofList name) inArguments).replace (inBraces newNames) =
      '$' :: text ∧ ∀ c ∈ text, Inert c := by
  rcases replace_occurrence newNames written (String.ofList name) inArguments with
    ⟨-, hreplace⟩ | ⟨q, hget, hreplace⟩
  · obtain ⟨text, htext, -, hinert⟩ := h.exists_inert
    exact ⟨text, hreplace.trans htext, hinert⟩
  · refine ⟨_, hreplace, fun c hc => ?_⟩
    rcases List.mem_cons.mp hc with rfl | hc
    · decide
    rcases List.mem_append.mp hc with hc | hc
    · exact inert_of_isWord ((hnames _ _ hget).2 c hc)
    · rw [List.mem_singleton.mp hc]
      decide

/-- Parts of a text are cut where the parser reads, and become a renamed text. -/
def InStep (newNames : Dict String) (seen : List ℕ) (s : List Char) : Prop :=
  ∀ parts, CutInto s parts → (∀ n ≤ s.length, n ∈ seen ↔ n ∈ occurrences parts) →
    Renamed s (replaced newNames parts) (renamings newNames seen s)

/-- Parts of a text become a renamed text behind a dollar that was cut off before. -/
def Ahead (newNames : Dict String) (seen : List ℕ) (s : List Char) : Prop :=
  ∀ parts, CutInto s parts → (∀ n ≤ s.length + 1, n ∈ seen ↔ n ∈ occurrences parts) →
    Renamed ('$' :: s) ('$' :: replaced newNames parts) (renamings newNames seen ('$' :: s))

/-- An occurrence that is seen becomes its new name. -/
theorem renamed_of_occurrence (hnames : ∀ p q, newNames.get? p = some q → IsName q)
    {name written : List Char} (h : Refers name written rest) (inArguments : Bool)
    {others : List Part} (hseen : (written ++ rest).length ∈ seen)
    (hmore : Renamed rest (replaced newNames others) (renamings newNames seen rest)) :
    Renamed (written ++ rest)
      (replaced newNames (.occurrence written (String.ofList name) inArguments :: others))
      (renamings newNames seen (written ++ rest)) := by
  rw [renamings_refers h, if_pos hseen, newName, replaced, List.flatMap_cons]
  rcases replace_occurrence newNames written (String.ofList name) inArguments with
    ⟨hget, hreplace⟩ | ⟨q, hget, hreplace⟩
  · rw [hget, hreplace]
    exact .kept h hmore rfl rfl
  · rw [hget, hreplace]
    exact .renamed h (hnames _ _ hget) hmore rfl (by simp [replaced])

/-- Each part that is cut off either stays or is a reference that the parser reads as well. -/
theorem inStep_of_shorter (hnames : ∀ p q, newNames.get? p = some q → IsName q)
    (hshorter : ∀ t : List Char, t.length < s.length →
      InStep newNames seen t ∧ Ahead newNames seen t) : InStep newNames seen s := by
  intro parts h hseen
  have hnil : ∀ c ∈ ([] : List Char), Inert c := by simp
  cases h with
  | nil =>
    rw [renamings, places_nil]
    exact .nil
  | @cons _ rest part others first more =>
    have hlt := first.length_lt
    have hrest : Renamed rest (replaced newNames others) (renamings newNames seen rest) :=
      (hshorter rest hlt).1 others more fun n hn =>
        (hseen n (by omega)).trans (first.mem_occurrences_cons more hn)
    cases first with
    | dollars =>
      rw [renamings_eq places_dollars, replaced_kept]
      exact .dollars hnil hnil hrest rfl rfl
    | @occurrence name written _ _ inArguments refers eq =>
      subst eq
      refine renamed_of_occurrence hnames refers inArguments ?_ hrest
      rw [hseen _ (Nat.le_refl _), occurrences, more.flatMap_written]
      exact List.mem_cons_self
    | @dollar _ text _ inert ne_dollar lone eq =>
      subst eq
      rw [renamings_eq (places_lone ne_dollar lone), renamings_eq (places_append_inert inert),
        replaced_kept]
      exact .dollar ne_dollar lone (hrest.append_inert inert)
    | @escaped x _ =>
      rw [renamings_eq (places_cons (by decide)), replaced_kept]
      by_cases hx : x = '$'
      · -- The parser reads the dollar together with what follows it.
        subst hx
        refine .char (by decide) ((hshorter rest hlt).2 others more fun n hn => ?_)
        exact hseen n (by simp only [List.length_cons]; omega)
      · rw [renamings_eq (places_cons hx)]
        exact .char (by decide) (.char hx hrest)
    | char ne_dollar =>
      rw [renamings_eq (places_cons ne_dollar), replaced_kept]
      exact .char ne_dollar hrest

/-- Behind two dollars, of which the scanner has cut off only one, the parser goes on with text that
means nothing, up to where the two meet again. -/
theorem renamed_of_dollar (hnames : ∀ p q, newNames.get? p = some q → IsName q)
    (hshorter : ∀ t : List Char, t.length < s.length + 1 →
      InStep newNames seen t ∧ Ahead newNames seen t) {parts : List Part}
    (h : CutInto ('$' :: s) parts)
    (hseen : ∀ n ≤ s.length + 2, n ∈ seen ↔ n ∈ occurrences parts) :
    Renamed ('$' :: '$' :: s) ('$' :: replaced newNames parts)
      (renamings newNames seen ('$' :: '$' :: s)) := by
  have hnil : ∀ c ∈ ([] : List Char), Inert c := by simp
  rw [renamings_eq places_dollars]
  cases h with
  | @cons _ rest part others first more =>
    have hlt := first.length_lt
    rw [List.length_cons] at hlt
    have hrest : Renamed rest (replaced newNames others) (renamings newNames seen rest) :=
      (hshorter rest hlt).1 others more fun n hn =>
        (hseen n (by omega)).trans (first.mem_occurrences_cons more hn)
    cases first with
    | dollars =>
      -- Both read two dollars again, and not the same two.
      have hahead := (hshorter rest hlt).2 others more fun n hn =>
        hseen n (by rw [List.length_cons]; omega)
      exact .dollars hnil hnil hahead rfl rfl
    | @occurrence name written _ _ inArguments refers eq =>
      obtain ⟨text, rfl, -, hinert⟩ := refers.exists_inert
      obtain ⟨text', htext', hinert'⟩ := exists_inert_replace hnames refers inArguments
      have hs : s = text ++ rest := (List.cons.inj eq).2
      subst hs
      rw [renamings_eq (places_append_inert hinert), replaced, List.flatMap_cons, htext']
      exact .dollars hinert hinert' hrest rfl rfl
    | @dollar _ text _ inert _ _ eq =>
      have hs : s = text ++ rest := (List.cons.inj eq).2
      subst hs
      rw [renamings_eq (places_append_inert inert), replaced_kept]
      exact .dollars inert inert hrest rfl rfl
    | char ne_dollar => exact absurd rfl ne_dollar

/-- The two meet again behind a reference, behind two dollars, or at once if the dollar is alone. -/
theorem ahead_of_inStep (hnames : ∀ p q, newNames.get? p = some q → IsName q)
    (hstep : InStep newNames seen s)
    (hshorter : ∀ t : List Char, t.length < s.length →
      InStep newNames seen t ∧ Ahead newNames seen t) : Ahead newNames seen s := by
  intro parts h hseen
  by_cases hdollar : s.head? = some '$'
  · obtain ⟨t, rfl⟩ := List.head?_eq_some_iff.mp hdollar
    exact renamed_of_dollar hnames hshorter h hseen
  by_cases hrefers : ∃ name written rest, written ++ rest = '$' :: s ∧ Refers name written rest
  · -- The scanner has cut off the dollar of a reference, which is hidden.
    obtain ⟨name, written, rest, heq, hrefers⟩ := hrefers
    obtain ⟨text, rfl, htext, hinert⟩ := hrefers.exists_inert
    have hs : s = text ++ rest := (List.cons.inj heq).2.symm
    subst hs
    obtain ⟨others, rfl, hothers⟩ := h.of_append_inert hinert
    have hlt : rest.length < (text ++ rest).length := by
      rw [List.length_append]
      exact Nat.lt_add_of_pos_left (List.length_pos_iff.mpr htext)
    have hunseen : (text ++ rest).length + 1 ∉ seen := by
      intro hmem
      have hle := h.le_of_mem_occurrences _ ((hseen _ (Nat.le_refl _)).mp hmem)
      omega
    have hmore := (hshorter rest hlt).1 others hothers fun n hn => by
      rw [hseen n (by omega), occurrences_chars]
    have hname : renamings newNames seen ('$' :: (text ++ rest)) =
        (String.ofList name, String.ofList name) :: renamings newNames seen rest := by
      rw [← List.cons_append, renamings_refers hrefers]
      exact congrArg (fun new => (String.ofList name, new) :: _) (if_neg hunseen)
    rw [hname, replaced_chars]
    exact .kept hrefers hmore rfl rfl
  · have hlone (name written rest : List Char) (heq : written ++ rest = '$' :: s) :
        ¬Refers name written rest := fun h => hrefers ⟨name, written, rest, heq, h⟩
    rw [renamings_eq (places_lone hdollar hlone)]
    exact .dollar hdollar hlone (hstep parts h fun n hn => hseen n (by omega))

/-- The induction is on the length of the text. -/
theorem inStep_and_ahead (hnames : ∀ p q, newNames.get? p = some q → IsName q) (s : List Char) :
    InStep newNames seen s ∧ Ahead newNames seen s := by
  induction hn : s.length using Nat.strongRecOn generalizing s with
  | ind n ih =>
    subst hn
    have hshorter (t : List Char) (ht : t.length < s.length) := ih t.length ht t rfl
    have hstep := inStep_of_shorter hnames hshorter
    exact ⟨hstep, ahead_of_inStep hnames hstep hshorter⟩

end

/-! ## What renamed texts refer to -/

/-- Renaming parameters renames the references of a text that are occurrences. -/
theorem renamed_apply {newNames : Dict String}
    (hnames : ∀ p q, newNames.get? p = some q → IsName q) (text : String) :
    Renamed text.toList (apply (inBraces newNames) text).toList
      (renamings newNames (occurrences (parts text.toList)) text.toList) := by
  rw [apply, String.toList_ofList]
  generalize text.toList = s
  cases hcall : bareCall? s with
  | none =>
    rw [parts, hcall]
    exact (inStep_and_ahead hnames s).1 _ (cutInto_partsIn [] s) fun _ _ => .rfl
  | some rest =>
    obtain ⟨front, rfl, hinert⟩ := exists_inert_of_bareCall hcall
    rw [parts, hcall]
    have hrest : Renamed rest _
        (renamings newNames (occurrences (partsIn [.arguments true] rest)) rest) :=
      (inStep_and_ahead hnames rest).1 _ (cutInto_partsIn [.arguments true] rest) fun _ _ => .rfl
    rw [renamings_eq (places_append_inert hinert)]
    show Renamed (front ++ rest) (upTo (front ++ rest) rest ++ _) _
    rw [upTo_append]
    exact hrest.append_inert hinert

/-- A template refers to the names at the places of its text. -/
theorem references_eq_places {limit : ℕ} {text : String} {t : Template}
    (ht : parse limit text = .ok t) : t.references = (places text.toList).map Prod.snd := by
  have hnames (p q : String) (h : Dict.get? ([] : Dict String) p = some q) : IsName q := by
    cases h
  obtain ⟨_, _, hold, _⟩ := parse_of_renamed ht (renamed_apply hnames text)
  rw [hold, renamings, List.map_map]
  rfl

/-- A text whose parameters are renamed parses with room for one level more. It refers to the new
names, in the order of the old ones, exactly if the names of its hidden references stay. -/
theorem references_apply {limit : ℕ} {text : String} {t : Template} {newNames : Dict String}
    (ht : parse limit text = .ok t) (hnames : ∀ p q, newNames.get? p = some q → IsName q) :
    ∃ t', parse (limit + 1) (apply (inBraces newNames) text) = .ok t' ∧
      (t'.references = t.references.map (newName newNames) ↔
        ∀ p ∈ hidden text, newName newNames p = p) := by
  obtain ⟨t', ht', -, hnew⟩ := parse_of_renamed ht (renamed_apply hnames text)
  refine ⟨t', ht', ?_⟩
  rw [references_eq_places ht, hnew, renamings, List.map_map, List.map_map, List.map_inj_left]
  -- A place keeps its name exactly if it is seen or has no other.
  have hseen (place : ℕ × String) :
      (if place.1 ∈ occurrences (parts text.toList) then newName newNames place.2 else place.2) =
        newName newNames place.2 ↔
      (place.1 ∉ occurrences (parts text.toList) → newName newNames place.2 = place.2) := by
    split
    · next h => simp [h]
    · next h => simpa [h] using eq_comm
  constructor
  · intro h p hp
    obtain ⟨place, hplace, rfl⟩ := List.mem_map.mp hp
    obtain ⟨hplace, hunseen⟩ := List.mem_filter.mp hplace
    exact (hseen place).mp (h place hplace) (by simpa using hunseen)
  · intro h place hplace
    refine (hseen place).mpr fun hunseen => h _ (List.mem_map_of_mem ?_)
    exact List.mem_filter.mpr ⟨hplace, by simpa using hunseen⟩

/-- A reference between quotes is renamed like one outside, and a name without a new one stays. -/
theorem references_apply_between_quotes :
    ∃ t t', parse 2 "pay $p $\x7bg(\"$p\", x=$q)\x7d" = .ok t ∧ t.references = ["p", "p", "q"] ∧
      parse 3 (apply (inBraces [("p", "r")]) "pay $p $\x7bg(\"$p\", x=$q)\x7d") = .ok t' ∧
      t'.references = ["r", "r", "q"] := by
  have hold : (parse 2 "pay $p $\x7bg(\"$p\", x=$q)\x7d").map references = .ok ["p", "p", "q"] := by
    decide +kernel
  have hhidden : hidden "pay $p $\x7bg(\"$p\", x=$q)\x7d" = [] := by decide +kernel
  obtain ⟨t, ht, hrefs⟩ := map_eq_ok.mp hold
  have hnames (p q : String) (h : Dict.get? [("p", "r")] p = some q) : IsName q := by
    rw [Dict.get?_cons] at h
    split at h
    · cases h
      exact ⟨by decide, List.all_eq_true.mp (by decide)⟩
    · cases h
  obtain ⟨t', ht', hiff⟩ := references_apply ht hnames
  refine ⟨t, t', ht, hrefs, ht', ?_⟩
  rw [hiff.mpr (by simp [hhidden]), hrefs]
  decide

/-- Behind a backslash that the parser does not drop, the reference between the quotes is hidden:
the text stays as it is and refers to `p` and not to `q`. -/
theorem references_apply_hidden :
    (parse 1 "$\x7bf(\"\\$p\")\x7d").map references = .ok ["p"] ∧
      hidden "$\x7bf(\"\\$p\")\x7d" = ["p"] ∧
      apply (inBraces [("p", "q")]) "$\x7bf(\"\\$p\")\x7d" = "$\x7bf(\"\\$p\")\x7d" ∧
      (parse 2 (apply (inBraces [("p", "q")]) "$\x7bf(\"\\$p\")\x7d")).map references =
        .ok ["p"] := by
  decide +kernel

/-! ## Texts without a backslash -/

/-- Without a backslash the scanner and the parser find references at the same places. -/
theorem CutInto.occurrences_eq {s : List Char} {parts : List Part} (h : CutInto s parts)
    (hs : '\\' ∉ s) : occurrences parts = (places s).map Prod.fst := by
  induction h with
  | nil => rw [places_nil, occurrences, List.map_nil]
  | @cons s rest part parts first others ih =>
    have hrest : '\\' ∉ rest := by
      rw [← first.written_append] at hs
      exact fun hmem => hs (List.mem_append_right _ hmem)
    cases first with
    | dollars => rw [places_dollars, occurrences, ih hrest]
    | occurrence refers eq =>
      subst eq
      rw [places_refers refers, occurrences, List.map_cons, ih hrest, others.flatMap_written]
    | dollar inert ne_dollar lone eq =>
      subst eq
      rw [places_lone ne_dollar lone, places_append_inert inert, occurrences, ih hrest]
    | escaped => exact absurd List.mem_cons_self hs
    | char ne_dollar => rw [places_cons ne_dollar, occurrences, ih hrest]

/-- A text without a backslash has no hidden references. -/
theorem hidden_eq_nil {text : String} (h : '\\' ∉ text.toList) : hidden text = [] := by
  have hoccurrences : occurrences (parts text.toList) = (places text.toList).map Prod.fst := by
    revert h
    generalize text.toList = s
    intro h
    cases hcall : bareCall? s with
    | none =>
      rw [parts, hcall]
      exact (cutInto_partsIn [] s).occurrences_eq h
    | some rest =>
      obtain ⟨front, rfl, hinert⟩ := exists_inert_of_bareCall hcall
      rw [parts, hcall, places_append_inert hinert]
      exact (cutInto_partsIn _ rest).occurrences_eq fun hmem => h (List.mem_append_right _ hmem)
  rw [hidden, List.map_eq_nil_iff, List.filter_eq_nil_iff, hoccurrences]
  intro place hplace
  simpa using ⟨place.2, hplace⟩

end Casebook.Substitution
