import Casebook.Proofs.Context.Reading
import Casebook.Proofs.Template.RoundTrip

/-!
# Interpolation

A text is put together from literal texts and variables: dollars in the literal texts are doubled,
and variables are written with braces. Evaluating it puts each value where its variable stands. A
variable on its own keeps the type of its value; among other text a value is inserted as its
rendering, just as it is, whatever dollars there are in it.

The text is read as the pieces it was put together from, so no dollar at the end of one of them
joins with what follows. What evaluation makes of the pieces is shown by induction on them.
-/

namespace Casebook.Interpolation

open Template Computation

/-! ## Texts that are put together -/

/-- What a text is put together from: literal text, or a variable with the value it is bound to. -/
inductive Item where
  | literal (text : String)
  | bound (name : String) (value : Value)

/-- A text with its dollars doubled. -/
def escape (text : String) : String :=
  String.ofList (text.toList.flatMap fun c => if c = '$' then ['$', '$'] else [c])

namespace Item

/-- How an item is written. -/
def written : Item → String
  | literal text => escape text
  | bound name _ => "$\x7b" ++ name ++ "\x7d"

/-- What stands for an item among other text. -/
def shown : Item → String
  | literal text => text
  | bound _ value => value.render

/-- Whether an item is a literal without text. -/
def isEmpty : Item → Bool
  | literal text => text = ""
  | bound _ _ => false

/-- A variable has a word for its name, and a store binds it to its value as it is. -/
def BoundIn (store : Store) : Item → Prop
  | literal _ => True
  | bound name value => IsName name ∧ store.find? name = some ⟨value, false⟩

end Item

/-- Items written one after another. -/
def written : List Item → String
  | [] => ""
  | item :: rest => item.written ++ written rest

/-- What stands for items one after another. -/
def shown : List Item → String
  | [] => ""
  | item :: rest => item.shown ++ shown rest

/-- What items come to: a variable that stands alone, but for literals without text, to its value,
and other items to text. -/
def value (items : List Item) : Value :=
  match items.filter fun item => !item.isEmpty with
  | [.bound _ v] => v
  | _ => .string (shown items)

/-! ## Reading -/

/-- The pieces that an item is read as. -/
def Item.pieces : Item → List Piece
  | literal text => text.toList.map .char
  | bound name _ => [.placeholder (.var name)]

/-- Printing in front of nothing doubles dollars and no more. -/
theorem toList_escape (text : String) :
    (escape text).toList = text.toList.flatMap (printChar .never) := by
  have hchar : printChar .never = fun c => if c = '$' then ['$', '$'] else [c] := by
    funext c
    simp [printChar, Stop.escapes]
  rw [escape, String.toList_ofList, hchar]

theorem takesPieces_written {store : Store} {items : List Item}
    (hitems : ∀ item ∈ items, item.BoundIn store) (room : ℕ) :
    TakesPieces (TakesPlaceholder (room + 1)) .never (written items).toList
      (items.flatMap Item.pieces) [] := by
  induction items with
  | nil => exact .done (by simp [written])
  | cons item rest ih =>
    obtain ⟨hitem, hrest⟩ := List.forall_mem_cons.mp hitems
    rw [written, String.toList_append, List.flatMap_cons]
    cases item with
    | literal text =>
      rw [Item.written, toList_escape]
      exact (ih hrest).append_printText (.inl rfl) text.toList
    | bound name v =>
      have hname : TakesPlaceholder (room + 1)
          (name.toList ++ '\x7d' :: (written rest).toList) (.var name) (written rest).toList :=
        ⟨_, takesName_var hitem.1 _, skipBlanks_brace _⟩
      have hwritten : (Item.bound name v).written.toList ++ (written rest).toList =
          '$' :: '\x7b' :: (name.toList ++ '\x7d' :: (written rest).toList) := by
        simp [Item.written, String.toList_append]
      rw [hwritten]
      exact .cons_placeholder rfl (.braces hname) (ih hrest)

/-- Items are read as the template that their pieces are joined into. -/
theorem parse_written {store : Store} {items : List Item}
    (hitems : ∀ item ∈ items, item.BoundIn store) {limit : ℕ} (hlimit : 0 < limit) :
    parse limit (written items) = .ok ⟨ofPieces (items.flatMap Item.pieces)⟩ := by
  obtain ⟨room, rfl⟩ := Nat.exists_eq_succ_of_ne_zero (Nat.ne_of_gt hlimit)
  exact parse_eq_ok.mpr ⟨_, takesPieces_written hitems room, rfl⟩

/-! ## A variable that stands alone -/

theorem consText_eq_nil_iff {text : List Char} {segments : List Segment} :
    consText text segments = [] ↔ text = [] ∧ segments = [] := by
  cases text <;> simp [consText]

theorem eq_nil_of_splitPieces {ps : List Piece} (h : splitPieces ps = ([], [])) : ps = [] := by
  cases ps with
  | nil => rfl
  | cons p rest => cases p <;> simp [splitPieces] at h

/-- Pieces are joined into a sole placeholder only if they are one. -/
theorem eq_of_ofPieces {ps : List Piece} {s : Segment} (hs : s.isText = false)
    (h : ofPieces ps = [s]) : ps = [.placeholder s] := by
  cases ps with
  | nil => cases h
  | cons p rest =>
    cases p with
    | char c =>
      -- The characters in front are joined into text.
      obtain ⟨rfl, -⟩ := List.cons.inj h
      cases hs
    | placeholder s' =>
      obtain ⟨rfl, hrest⟩ := List.cons.inj h
      obtain ⟨hchars, hsegments⟩ := consText_eq_nil_iff.mp hrest
      rw [eq_nil_of_splitPieces (Prod.ext hchars hsegments)]

theorem isText_of_solePlaceholder? {t : Template} {s : Segment} (h : t.solePlaceholder? = some s) :
    s.isText = false := by
  unfold solePlaceholder? at h
  split at h
  · cases h
    rfl
  · cases h
    rfl
  · cases h

/-- Literals without text add nothing to what is read. -/
theorem flatMap_pieces_filter (items : List Item) :
    (items.filter fun item => !item.isEmpty).flatMap Item.pieces = items.flatMap Item.pieces := by
  induction items with
  | nil => rfl
  | cons item rest ih =>
    rw [List.flatMap_cons, ← ih, List.filter_cons]
    cases hempty : item.isEmpty with
    | false => rfl
    | true =>
      cases item with
      | literal text =>
        obtain rfl : text = "" := by simpa [Item.isEmpty] using hempty
        rfl
      | bound => cases hempty

theorem pieces_ne_nil {item : Item} (h : item.isEmpty = false) : item.pieces ≠ [] := by
  cases item with
  | literal text =>
    intro hnil
    have htext : text.toList = [] := List.map_eq_nil_iff.mp hnil
    rw [Item.isEmpty, String.toList_eq_nil_iff.mp htext] at h
    cases h
  | bound => exact List.cons_ne_nil _ _

/-- Items that are read as one placeholder are one variable, but for literals without text. -/
theorem exists_of_pieces {items : List Item} {s : Segment}
    (h : items.flatMap Item.pieces = [.placeholder s]) :
    ∃ name v, (items.filter fun item => !item.isEmpty) = [.bound name v] ∧ s = .var name := by
  rw [← flatMap_pieces_filter] at h
  have hfull : ∀ item ∈ items.filter (fun item => !item.isEmpty), item.isEmpty = false :=
    fun item hitem => by simpa using (List.mem_filter.mp hitem).2
  revert h hfull
  generalize items.filter (fun item => !item.isEmpty) = full
  intro h hfull
  cases full with
  | nil => cases h
  | cons item rest =>
    obtain ⟨hitem, hrest⟩ := List.forall_mem_cons.mp hfull
    rw [List.flatMap_cons] at h
    -- The first item is read as the placeholder, so nothing is left for others.
    have hone : item.pieces = [.placeholder s] ∧ rest.flatMap Item.pieces = [] := by
      rcases List.append_eq_singleton_iff.mp h with ⟨hnil, -⟩ | hone
      · exact absurd hnil (pieces_ne_nil hitem)
      · exact hone
    have hlast : rest = [] := by
      cases rest with
      | nil => rfl
      | cons next rest =>
        have hnil := List.append_eq_nil_iff.mp hone.2
        exact absurd hnil.1 (pieces_ne_nil (List.forall_mem_cons.mp hrest).1)
    subst hlast
    cases item with
    | literal text =>
      have hchars : text.toList.map Piece.char = [.placeholder s] := hone.1
      obtain ⟨c, _, -, hc, -⟩ := List.map_eq_cons_iff.mp hchars
      cases hc
    | bound name v =>
      cases hone.1
      exact ⟨name, v, rfl, rfl⟩

/-! ## Evaluating -/

section

variable {rules : Rules} {fresh : String → Evaluation Value} {depth : ℕ}
  {below : Option (Unit → Level)} {expanding : List String} {session : Session}

/-- A variable that is bound to a value as it is has that value, and no level is opened for it. -/
theorem exec_variableOver {name : String} {v : Value}
    (h : session.store.find? name = some ⟨v, false⟩) :
    exec (Level.variableOver rules depth below expanding name) session = (.ok v, session) := by
  rw [Level.variableOver, exec_bind_of_ok (exec_get session), h]
  rfl

theorem exec_textOver_consText {segments : List Segment} {more : String}
    (h : exec (Level.textOver rules fresh depth below expanding segments) session =
      (.ok more, session)) (text : List Char) :
    exec (Level.textOver rules fresh depth below expanding (consText text segments)) session =
      (.ok (String.ofList text ++ more), session) := by
  cases text with
  | nil =>
    rw [consText, h]
    simp
  | cons c text =>
    have hsegment : exec (Level.segmentOver rules fresh depth below expanding
        (.text (String.ofList (c :: text)))) session =
          (.ok (.string (String.ofList (c :: text))), session) := rfl
    rw [consText_of_ne_nil (List.cons_ne_nil c text), Level.textOver, exec_bind_of_ok hsegment,
      exec_bind_of_ok h]
    rfl

/-- The text of items: that of the characters they begin with, and then that of the rest. -/
theorem exec_textOver_pieces {items : List Item}
    (hitems : ∀ item ∈ items, item.BoundIn session.store) :
    exec (Level.textOver rules fresh depth below expanding
        (ofPieces (items.flatMap Item.pieces))) session = (.ok (shown items), session) := by
  -- The characters in front are yet to be joined with what stands in front of them.
  suffices hsplit : ∃ more, exec (Level.textOver rules fresh depth below expanding
        (splitPieces (items.flatMap Item.pieces)).2) session = (.ok more, session) ∧
      String.ofList (splitPieces (items.flatMap Item.pieces)).1 ++ more = shown items by
    obtain ⟨more, hmore, hshown⟩ := hsplit
    rw [ofPieces, exec_textOver_consText hmore, hshown]
  induction items with
  | nil => exact ⟨"", rfl, rfl⟩
  | cons item rest ih =>
    obtain ⟨hitem, hrest⟩ := List.forall_mem_cons.mp hitems
    obtain ⟨more, hmore, hshown⟩ := ih hrest
    rw [List.flatMap_cons, shown, ← hshown]
    cases item with
    | literal text =>
      rw [Item.pieces, splitPieces_chars]
      refine ⟨more, hmore, ?_⟩
      rw [String.ofList_append, String.ofList_toList, String.append_assoc]
      rfl
    | bound name v =>
      refine ⟨v.render ++ (String.ofList (splitPieces (rest.flatMap Item.pieces)).1 ++ more), ?_, ?_⟩
      · show exec (Level.textOver rules fresh depth below expanding
          (.var name :: consText (splitPieces (rest.flatMap Item.pieces)).1
            (splitPieces (rest.flatMap Item.pieces)).2)) session = _
        have hvalue : exec (Level.segmentOver rules fresh depth below expanding (.var name)) session =
            (.ok v, session) := exec_variableOver hitem.2
        rw [Level.textOver, exec_bind_of_ok hvalue,
          exec_bind_of_ok (exec_textOver_consText hmore _)]
        rfl
      · exact String.empty_append

/-- The template that items are read as has their value. -/
theorem exec_templateOver_pieces {items : List Item}
    (hitems : ∀ item ∈ items, item.BoundIn session.store) :
    exec (Level.templateOver rules fresh depth below expanding
        (ofPieces (items.flatMap Item.pieces))) session = (.ok (value items), session) := by
  unfold Level.templateOver value
  cases hsole : (Template.mk (ofPieces (items.flatMap Item.pieces))).solePlaceholder? with
  | some s =>
    have hpieces := eq_of_ofPieces (isText_of_solePlaceholder? hsole)
      (segments_of_solePlaceholder? hsole)
    obtain ⟨name, v, halone, rfl⟩ := exists_of_pieces hpieces
    have hmem : Item.bound name v ∈ items.filter fun item => !item.isEmpty := by
      rw [halone]
      exact List.mem_singleton_self _
    rw [halone]
    exact exec_variableOver (hitems _ (List.mem_filter.mp hmem).1).2
  | none =>
    simp only
    rw [exec_bind_of_ok (exec_textOver_pieces hitems)]
    split
    · next name v halone =>
      -- A variable alone would be read as a sole placeholder.
      rw [← flatMap_pieces_filter, halone] at hsole
      cases hsole
    · rfl

end

/-! ## Resolving texts -/

variable {c : Context}

theorem written_literal (text : String) : written [.literal text] = escape text :=
  String.append_empty

theorem value_literal (text : String) : value [.literal text] = .string text := by
  have hshown : shown [.literal text] = text := String.append_empty
  by_cases htext : text = ""
  · subst htext
    rfl
  · have hfull : (Item.literal text).isEmpty = false := by simpa [Item.isEmpty] using htext
    rw [value, List.filter_cons_of_pos (by rw [hfull]; rfl), List.filter_nil]
    exact congrArg Value.string hshown

/-- Without dollars nothing is doubled. -/
theorem escape_of_not_mem {text : String} (h : '$' ∉ text.toList) : escape text = text := by
  have hsame : text.toList.map (fun c => if c = '$' then ['$', '$'] else [c]) =
      text.toList.map fun c => [c] := by
    refine List.map_congr_left fun c hc => if_neg ?_
    rintro rfl
    exact h hc
  rw [escape, List.flatMap_def, hsame, ← List.flatMap_def, List.flatMap_singleton',
    String.ofList_toList]

/-- A text is resolved to what its template evaluates to, also where it is not read as one. -/
theorem resolveString_eq_run {text : String} {t : Template} (h : parse c.limit text = .ok t) :
    c.resolveString text = c.run (c.level.template [] t.segments) := by
  obtain ⟨fresh, below, hlevel⟩ := exists_level_eq c
  have hexec : exec (c.level.value [] (.string text)) ⟨c.store, []⟩ =
      exec (c.level.template [] t.segments) ⟨c.store, []⟩ := by
    rw [hlevel]
    show exec (Level.stringOver c.rules fresh 0 below [] text) _ = _
    have hlift : exec (Evaluation.lift (parse c.rules.limit text)) ⟨c.store, []⟩ =
        (.ok t, ⟨c.store, []⟩) := by
      rw [show c.rules.limit = c.limit from rfl, h]
      rfl
    rw [exec_stringOver_eq, exec_bind_of_ok hlift]
    rfl
  unfold exec at hexec
  rw [Context.resolveString, Context.resolveValue, Context.run, Context.run, hexec]

theorem run_template_pieces {items : List Item} (hitems : ∀ item ∈ items, item.BoundIn c.store) :
    c.run (c.level.template [] (ofPieces (items.flatMap Item.pieces))) = (.ok (value items), c) := by
  obtain ⟨fresh, below, hlevel⟩ := exists_level_eq c
  have hexec : exec (c.level.template [] (ofPieces (items.flatMap Item.pieces))) ⟨c.store, []⟩ =
      (.ok (value items), ⟨c.store, []⟩) := by
    rw [hlevel]
    exact exec_templateOver_pieces hitems
  unfold exec at hexec
  rw [Context.run, hexec]

/-- Interpolation. A text that is put together from literal texts, their dollars doubled, and
variables in braces, which are bound to values as they are, resolves to the value of the variable if
there is but one and no literal text, and else to the literal texts and the renderings of the values
one after another; whatever dollars the values hold, they are not looked at again, and the context
stays as it is. So a text with its dollars doubled resolves to itself; and a text without a dollar,
which is not read as a template, resolves to what it would be evaluated to if it were. (A limit that
is set is at least one.) -/
theorem resolveString_written (hlimit : 0 < c.limit) {items : List Item}
    (hitems : ∀ item ∈ items, item.BoundIn c.store) :
    c.resolveString (written items) = (.ok (value items), c) ∧
      (∀ text, c.resolveString (escape text) = (.ok (.string text), c)) ∧
      ∀ text : String, '$' ∉ text.toList → ∃ t, parse c.limit text = .ok t ∧
        c.resolveString text = (.ok (.string text), c) ∧
        c.run (c.level.template [] t.segments) = (.ok (.string text), c) := by
  have hwritten {items : List Item} (hitems : ∀ item ∈ items, item.BoundIn c.store) :
      c.resolveString (written items) = (.ok (value items), c) := by
    rw [resolveString_eq_run (parse_written hitems hlimit), run_template_pieces hitems]
  have hliteral (text : String) : ∀ item ∈ [Item.literal text], item.BoundIn c.store := by
    intro item hitem
    rw [List.mem_singleton.mp hitem]
    trivial
  refine ⟨hwritten hitems, fun text => ?_, fun text htext => ?_⟩
  · rw [← written_literal, hwritten (hliteral text), value_literal]
  · have hparse := parse_written (hliteral text) hlimit
    have hvalue := run_template_pieces (hliteral text)
    rw [written_literal, escape_of_not_mem htext] at hparse
    rw [value_literal] at hvalue
    exact ⟨_, hparse, (resolveString_eq_run hparse).trans hvalue, hvalue⟩

/-- A context with a text that has dollars in it, a number, and room for one level. -/
def shop : Context where
  store := ((Store.empty 0).set "price" (.string "$5 $$")).set "count" (.int 2)
  verbs := []
  limit := 1

/-- A dollar in front of a variable stays one, those in its value are left alone, and a number keeps
its type where it stands alone. -/
theorem resolveString_written_shop :
    shop.resolveString "US$$$\x7bprice\x7d$$" = (.ok (.string "US$$5 $$$"), shop) ∧
      shop.resolveString "$\x7bcount\x7d" = (.ok (.int 2), shop) := by
  constructor
  · have hitems : ∀ item ∈ [.literal "US$", .bound "price" (.string "$5 $$"), .literal "$"],
        Item.BoundIn shop.store item := by
      simp only [List.forall_mem_cons]
      exact ⟨trivial, ⟨by decide, rfl⟩, trivial, nofun⟩
    exact (resolveString_written (by decide) hitems).1
  · have hitems : ∀ item ∈ [.literal "", .bound "count" (.int 2)],
        Item.BoundIn shop.store item := by
      simp only [List.forall_mem_cons]
      exact ⟨trivial, ⟨by decide, rfl⟩, nofun⟩
    exact (resolveString_written (by decide) hitems).1

end Casebook.Interpolation
