import Casebook.Definition.Source
import Casebook.Proofs.Text.Splitting
import Mathlib.Data.List.TakeWhile
import Mathlib.Data.Nat.Notation

/-!
# Where paths lead

A path leads to names from the root on (`Files.locate`). Parts that name nothing make no difference
to a path that leads to a folder (`resolve_filter_iff`), so it is enough to know the other parts and
whether the path starts at the root. From there come the two facts that walking a folder rests on: a
folder's path continued by a name leads to the entry of that name, and without its last name it
leads to the folder again.
-/

namespace Casebook

namespace Path

open Text

/-- The parts that name something. -/
def named (parts : List (List Char)) : List (List Char) :=
  parts.filter fun part => !isVoid part

theorem named_append (parts more : List (List Char)) :
    named (parts ++ more) = named parts ++ named more :=
  List.filter_append ..

theorem named_cons_of_isVoid {part : List Char} (h : isVoid part = true)
    (parts : List (List Char)) : named (part :: parts) = named parts := by
  rw [named, List.filter_cons_of_neg (by simp [h])]
  rfl

/-- The parts that are dropped name nothing. -/
theorem exists_dropVoid_append (parts : List (List Char)) :
    ∃ dropped, parts = dropVoid parts ++ dropped ∧ named dropped = [] := by
  refine ⟨(parts.reverse.takeWhile isVoid).reverse, ?_, ?_⟩
  · rw [dropVoid, ← List.reverse_append, List.takeWhile_append_dropWhile, List.reverse_reverse]
  · refine List.filter_eq_nil_iff.mpr fun part hpart => ?_
    have hvoid := List.mem_takeWhile_imp (List.mem_reverse.mp hpart)
    simp [hvoid]

theorem named_dropVoid (parts : List (List Char)) : named (dropVoid parts) = named parts := by
  obtain ⟨dropped, happend, hdropped⟩ := exists_dropVoid_append parts
  rw [congrArg named happend, named_append, hdropped, List.append_nil]

/-- A name at the end is not dropped. -/
theorem dropVoid_concat {name : List Char} (h : isVoid name = false) (parts : List (List Char)) :
    dropVoid (parts ++ [name]) = parts ++ [name] := by
  rw [dropVoid, List.reverse_append, List.reverse_singleton, List.singleton_append,
    List.dropWhile_cons_of_neg (by simp [h]), List.reverse_cons, List.reverse_reverse]

/-! ## Paths and names -/

/-- A text is a name that an entry of a folder may have. -/
def IsName (name : String) : Prop :=
  '/' ∉ name.toList ∧ name ≠ "" ∧ name ≠ "." ∧ name ≠ ".."

instance (name : String) : Decidable (IsName name) :=
  inferInstanceAs (Decidable (_ ∧ _))

/-- A path starts at the root, with a dot, or with neither. -/
theorem start_cases (s : List Char) :
    (∃ t, s = '/' :: t ∧ start s = ['/']) ∨
      (start s = ['.'] ∧ (s = ['.'] ∨ ∃ t, s = '.' :: '/' :: t)) ∨
      (start s = [] ∧ s.head? ≠ some '/' ∧ s ≠ ['.'] ∧ ∀ t, s ≠ '.' :: '/' :: t) := by
  unfold start
  split
  · next t => exact .inl ⟨t, rfl, rfl⟩
  · exact .inr (.inl ⟨rfl, .inl rfl⟩)
  · next t => exact .inr (.inl ⟨rfl, .inr ⟨t, rfl⟩⟩)
  · next hslash hdot hdots =>
    refine .inr (.inr ⟨rfl, fun hhead => ?_, hdot, hdots⟩)
    obtain ⟨t, rfl⟩ := List.head?_eq_some_iff.mp hhead
    exact hslash t rfl

namespace IsName

variable {name : String}

theorem toList_ne (h : IsName name) :
    name.toList ≠ [] ∧ name.toList ≠ ['.'] ∧ name.toList ≠ ['.', '.'] :=
  ⟨fun heq => h.2.1 (String.toList_injective heq), fun heq => h.2.2.1 (String.toList_injective heq),
    fun heq => h.2.2.2 (String.toList_injective heq)⟩

theorem isVoid_eq_false (h : IsName name) : isVoid name.toList = false := by
  obtain ⟨hempty, hdot, -⟩ := h.toList_ne
  simp [isVoid, hempty, hdot]

theorem named_singleton (h : IsName name) : named [name.toList] = [name.toList] := by
  simp [named, h.isVoid_eq_false]

theorem isAbsolute_eq_false (h : IsName name) : isAbsolute name = false := by
  rw [isAbsolute, decide_eq_false_iff_not]
  exact fun hhead => h.1 (List.mem_of_mem_head? hhead)

theorem splitOn_eq (h : IsName name) : splitOn '/' name.toList = [name.toList] :=
  splitOn_of_notMem h.1

/-- A name is a path of its own. -/
theorem body_eq (h : IsName name) : body name = [name.toList] := by
  have hstart : start name.toList = [] := by
    rcases start_cases name.toList with ⟨t, heq, -⟩ | ⟨-, heq | ⟨t, heq⟩⟩ | ⟨hstart, -⟩
    · exact absurd (heq ▸ List.mem_cons_self) h.1
    · exact absurd heq h.toList_ne.2.1
    · exact absurd (heq ▸ List.mem_cons_of_mem _ List.mem_cons_self) h.1
    · exact hstart
  rw [body, hstart, List.length_nil, List.drop_zero, h.splitOn_eq]
  exact dropVoid_concat h.isVoid_eq_false []

/-- A path that ends with a name has it as its last one. -/
theorem fileName?_eq (h : IsName name) {path : String} {parts : List (List Char)}
    (hbody : body path = parts ++ [name.toList]) : fileName? path = some name.toList := by
  rw [fileName?, hbody, List.getLast?_concat]
  split
  · next heq => cases heq
  · next heq => exact absurd (Option.some.inj heq) h.toList_ne.2.2
  · next heq => exact heq.symm

end IsName

/-- The start of a path names nothing. -/
theorem named_splitOn_drop_start (s : List Char) :
    named (splitOn '/' (s.drop (start s).length)) = named (splitOn '/' s) := by
  rcases start_cases s with ⟨t, rfl, hstart⟩ | ⟨hstart, rfl | ⟨t, rfl⟩⟩ | ⟨hstart, -⟩
  · rw [hstart, splitOn_cons_self, named_cons_of_isVoid rfl]
    rfl
  · rw [hstart]
    rfl
  · rw [hstart]
    have hdot : splitOn '/' ('.' :: '/' :: t) = ['.'] :: splitOn '/' t :=
      splitOn_append_cons ['.'] t
    rw [hdot, named_cons_of_isVoid rfl, List.length_singleton, List.drop_one, List.tail_cons,
      splitOn_cons_self, named_cons_of_isVoid rfl]
  · rw [hstart]
    rfl

/-- A path that is continued by a name, as a text: what stands in front of the slash is the path, or
the path without the slash at its end. -/
theorem exists_join_eq {path name : String} (hpath : path ≠ "") (hname : IsName name) :
    ∃ front, (join path name).toList = front ++ '/' :: name.toList ∧
      (path.toList = front ∨ path.toList = front ++ ['/']) := by
  have hends : path.endsWith "/" = true ↔ ['/'] <:+ path.toList := by
    rw [← String.endsWith_toSlice, String.Slice.endsWith_string_iff, String.copy_toSlice]
    rfl
  rw [join, if_neg (by simp [hname.isAbsolute_eq_false, hpath])]
  split
  · next hslash =>
    obtain ⟨front, hfront⟩ := hends.mp hslash
    refine ⟨front, ?_, .inr hfront.symm⟩
    rw [String.toList_append, ← hfront, List.append_assoc]
    rfl
  · refine ⟨path.toList, ?_, .inl rfl⟩
    rw [String.toList_append, String.toList_append, List.append_assoc]
    rfl

/-- The first parts behind the start of a path, with the start in front, are a path that starts in
the same way and has these parts. -/
theorem named_start_append {s : List Char} {parts more : List (List Char)}
    (h : splitOn '/' (s.drop (start s).length) = parts ++ more) :
    named (splitOn '/' (start s ++ ['/'].intercalate parts)) = named parts ∧
      ((start s ++ ['/'].intercalate parts).head? = some '/' ↔ s.head? = some '/') := by
  have hslash : ∀ part ∈ parts, '/' ∉ part := fun part hpart =>
    notMem_of_mem_splitOn (h ▸ List.mem_append_left more hpart)
  have hagain : named (splitOn '/' (['/'].intercalate parts)) = named parts := by
    cases parts with
    | nil => rfl
    | cons part rest => rw [splitOn_intercalate (List.cons_ne_nil part rest) hslash]
  rcases start_cases s with ⟨t, rfl, hstart⟩ | ⟨hstart, hs⟩ | ⟨hstart, hhead, -⟩
  · rw [hstart, List.singleton_append, splitOn_cons_self, named_cons_of_isVoid rfl]
    exact ⟨hagain, Iff.rfl⟩
  · -- Behind the dot the path ends or goes on with a slash, and so do its first parts.
    obtain ⟨rest, hrest⟩ : ∃ rest, parts ++ more = [] :: rest := by
      rw [← h, hstart]
      rcases hs with rfl | ⟨t, rfl⟩
      · exact ⟨[], rfl⟩
      · exact ⟨splitOn '/' t, splitOn_cons_self t⟩
    have hbehind : ['/'].intercalate parts = [] ∨ ∃ t, ['/'].intercalate parts = '/' :: t := by
      cases parts with
      | nil => exact .inl rfl
      | cons part parts =>
        cases hrest
        cases parts with
        | nil => exact .inl rfl
        | cons next rest => exact .inr ⟨_, List.intercalate_cons_cons⟩
    refine ⟨?_, ?_⟩
    · rw [← hagain, hstart, List.singleton_append]
      rcases hbehind with hbehind | ⟨t, hbehind⟩ <;> rw [hbehind]
      · rfl
      · have hdot : splitOn '/' ('.' :: '/' :: t) = ['.'] :: splitOn '/' t :=
          splitOn_append_cons ['.'] t
        rw [hdot, splitOn_cons_self, named_cons_of_isVoid rfl, named_cons_of_isVoid rfl]
    · rw [hstart]
      rcases hs with rfl | ⟨t, rfl⟩ <;> rfl
  · rw [hstart, List.nil_append]
    rw [hstart, List.length_nil, List.drop_zero] at h
    refine ⟨hagain, iff_of_false (fun hX => ?_) hhead⟩
    cases parts with
    | nil => cases hX
    | cons first rest =>
      cases first with
      | cons c first =>
        have hc : c = '/' := by
          cases rest <;> exact Option.some.inj hX
        exact hslash _ List.mem_cons_self (hc ▸ List.mem_cons_self)
      | nil =>
        rcases eq_append_of_splitOn h with rfl | ⟨t, rfl⟩
        · obtain ⟨rfl, -⟩ : rest = [] ∧ more = [] := by simpa [splitOn] using h
          cases hX
        · exact hhead rfl

section Join

variable {path name : String} (hpath : path ≠ "") (hname : IsName name)

include hpath hname

theorem join_ne_empty : join path name ≠ "" := by
  obtain ⟨front, hjoin, -⟩ := exists_join_eq hpath hname
  intro hempty
  rw [hempty] at hjoin
  exact List.append_ne_nil_of_right_ne_nil front (List.cons_ne_nil _ _) hjoin.symm

theorem isAbsolute_join : isAbsolute (join path name) = isAbsolute path := by
  obtain ⟨front, hjoin, hfront⟩ := exists_join_eq hpath hname
  have hne : path.toList ≠ [] := fun heq => hpath (String.toList_injective heq)
  rw [isAbsolute, isAbsolute, hjoin]
  cases front with
  | nil =>
    rcases hfront with hfront | hfront
    · exact absurd hfront hne
    · rw [hfront]
      rfl
  | cons c front =>
    rcases hfront with hfront | hfront <;> rw [hfront] <;> rfl

/-- The parts of a path that is continued by a name. -/
theorem exists_splitOn_join :
    ∃ parts, splitOn '/' (join path name).toList = parts ++ [name.toList] ∧
      (splitOn '/' path.toList = parts ∨ splitOn '/' path.toList = parts ++ [[]]) := by
  obtain ⟨front, hjoin, hfront⟩ := exists_join_eq hpath hname
  refine ⟨splitOn '/' front, ?_, ?_⟩
  · rw [hjoin, splitOn_append_cons, hname.splitOn_eq]
  · rcases hfront with hfront | hfront
    · exact .inl (congrArg (splitOn '/') hfront)
    · rw [hfront]
      exact .inr (splitOn_append_cons front [])

theorem named_splitOn_join :
    named (splitOn '/' (join path name).toList) =
      named (splitOn '/' path.toList) ++ [name.toList] := by
  obtain ⟨parts, hjoin, hparts⟩ := exists_splitOn_join hpath hname
  rw [hjoin, named_append, hname.named_singleton]
  rcases hparts with hparts | hparts <;> rw [hparts]
  rw [named_append]
  exact congrArg (· ++ _) (List.append_nil _).symm

/-- What is left in front of the name when the start of the path is taken away. -/
theorem exists_body_join :
    ∃ parts, splitOn '/' ((join path name).toList.drop (start (join path name).toList).length) =
        parts ++ [name.toList] ∧ named parts = named (splitOn '/' path.toList) := by
  obtain ⟨parts, hparts⟩ : ∃ parts, splitOn '/' ((join path name).toList.drop
      (start (join path name).toList).length) = parts ++ [name.toList] := by
    obtain ⟨front, hjoin, -⟩ := exists_join_eq hpath hname
    rw [hjoin]
    cases front with
    | nil =>
      exact ⟨[], hname.splitOn_eq⟩
    | cons c front =>
      have hlength : (start (c :: front ++ '/' :: name.toList)).length ≤ 1 := by
        unfold start
        split <;> simp
      obtain hzero | hone := Nat.le_one_iff_eq_zero_or_eq_one.mp hlength
      · refine ⟨splitOn '/' (c :: front), ?_⟩
        rw [hzero, List.drop_zero, splitOn_append_cons, hname.splitOn_eq]
      · refine ⟨splitOn '/' front, ?_⟩
        rw [hone, List.cons_append, List.drop_one, List.tail_cons, splitOn_append_cons,
          hname.splitOn_eq]
  refine ⟨parts, hparts, List.append_cancel_right (?_ : named parts ++ [name.toList] = _)⟩
  rw [← named_splitOn_join hpath hname, ← named_splitOn_drop_start, hparts, named_append,
    hname.named_singleton]

/-- A path that is continued by a name has its extension. -/
theorem extension?_join : extension? (join path name) = extension? name := by
  obtain ⟨parts, hparts, -⟩ := exists_body_join hpath hname
  have hbody : body (join path name) = parts ++ [name.toList] := by
    rw [body, hparts, dropVoid_concat hname.isVoid_eq_false]
  have hname' : body name = [] ++ [name.toList] := hname.body_eq
  rw [extension?, extension?, hname.fileName?_eq hbody, hname.fileName?_eq hname']

/-- A path that is continued by a name starts at the root, with a dot, or with a part that names
something. -/
theorem exists_first_join (hstart : start (join path name).toList = []) :
    ∃ first rest, splitOn '/' (join path name).toList = first :: (rest ++ [name.toList]) ∧
      isVoid first = false := by
  obtain ⟨front, hjoin, -⟩ := exists_join_eq hpath hname
  have hsplit : splitOn '/' (join path name).toList = splitOn '/' front ++ [name.toList] := by
    rw [hjoin, splitOn_append_cons, hname.splitOn_eq]
  obtain ⟨first, rest, hfront⟩ := List.exists_cons_of_ne_nil (splitOn_ne_nil '/' front)
  rw [hfront, List.cons_append] at hsplit
  refine ⟨first, rest, hsplit, ?_⟩
  rcases start_cases (join path name).toList with ⟨t, -, h⟩ | ⟨h, -⟩ | ⟨-, hhead, hdot, hdots⟩
  · cases hstart.symm.trans h
  · cases hstart.symm.trans h
  · rw [← Bool.not_eq_true, isVoid, Bool.or_eq_true, decide_eq_true_eq, decide_eq_true_eq]
    rintro (rfl | rfl)
    · rcases eq_append_of_splitOn hfront with rfl | ⟨t, rfl⟩ <;> exact hhead (by rw [hjoin]; rfl)
    · rcases eq_append_of_splitOn hfront with rfl | ⟨t, rfl⟩ <;> exact hdots _ hjoin

/-- Without its name the path is there again, up to parts that name nothing. -/
theorem exists_parent?_join :
    ∃ parent, parent? (join path name) = some parent ∧ parent ≠ "" ∧
      isAbsolute parent = isAbsolute path ∧
      named (splitOn '/' parent.toList) = named (splitOn '/' path.toList) := by
  obtain ⟨parts, hparts, hnamed⟩ := exists_body_join hpath hname
  obtain ⟨dropped, happend, hdropped⟩ := exists_dropVoid_append parts
  have hkept : named (dropVoid parts) = named (splitOn '/' path.toList) :=
    (named_dropVoid parts).trans hnamed
  let rebuilt := start (join path name).toList ++ ['/'].intercalate (dropVoid parts)
  have hparent : parent? (join path name) = some (String.ofList rebuilt) := by
    have hbody : body (join path name) = parts ++ [name.toList] := by
      rw [body, hparts, dropVoid_concat hname.isVoid_eq_false]
    rw [parent?, hbody]
    split
    · next heq => simp at heq
    · rw [List.dropLast_concat]
  have hprefix : splitOn '/' ((join path name).toList.drop
      (start (join path name).toList).length) = dropVoid parts ++ (dropped ++ [name.toList]) := by
    rw [hparts, ← List.append_assoc, ← happend]
  have hrebuilt := named_start_append hprefix
  refine ⟨String.ofList rebuilt, hparent, fun hempty => ?_, ?_, ?_⟩
  · have hnil : rebuilt = [] := String.ofList_injective (hempty.trans rfl)
    obtain ⟨hstart, -⟩ := List.append_eq_nil_iff.mp hnil
    obtain ⟨first, rest, hfirst, hvoid⟩ := exists_first_join hpath hname hstart
    have hcons : parts = first :: rest := by
      rw [hstart, List.length_nil, List.drop_zero, hfirst, ← List.cons_append] at hparts
      exact (List.append_cancel_right hparts).symm
    -- The first part names something, so it was not dropped.
    have hmem : first ∈ named (dropVoid parts) := by
      rw [named_dropVoid, hcons]
      exact List.mem_filter.mpr ⟨List.mem_cons_self, by simp [hvoid]⟩
    rw [← hrebuilt.1, show start (join path name).toList ++ _ = [] from hnil] at hmem
    cases hmem
  · rw [← isAbsolute_join hpath hname, isAbsolute, isAbsolute, String.toList_ofList]
    exact decide_eq_decide.mpr hrebuilt.2
  · rw [String.toList_ofList]
    exact hrebuilt.1.trans hkept

end Join

end Path

/-! ## Locations -/

theorem FileNode.under?_append (names more : List String) (n : FileNode) :
    n.under? (names ++ more) = (n.under? names).bind fun n => n.under? more := by
  induction names generalizing n with
  | nil => rfl
  | cons name rest ih =>
    rw [List.cons_append, under?, under?]
    cases n.entries?.bind fun entries => Dict.get? entries name with
    | none => rfl
    | some n => exact ih n

namespace Files

open Path Text

/-- The names from the root on that a path leads to. -/
def locate (fs : Files) (path : String) : Option (List String) :=
  if path = "" then none else resolve fs.root (fs.start path) (splitOn '/' path.toList)

theorem find?_eq (fs : Files) (path : String) :
    fs.find? path = (fs.locate path).bind fun names => fs.root.under? names := by
  unfold find? locate
  split <;> rfl

/-- Under some names lies a folder that can be listed. -/
def HasFolder (root : FileNode) (names : List String) : Prop :=
  ∃ entries, root.under? names = some (.folder entries)

section Resolve

variable {root : FileNode} {names out : List String}

theorem resolve_of_hasFolder (h : HasFolder root names) (part : List Char)
    (rest : List (List Char)) :
    resolve root names (part :: rest) =
      if isVoid part then resolve root names rest
      else if part = ['.', '.'] then resolve root names.dropLast rest
      else resolve root (names ++ [String.ofList part]) rest := by
  obtain ⟨entries, hentries⟩ := h
  rw [resolve, hentries]

/-- A path leads through folders only. -/
theorem HasFolder.of_resolve {parts : List (List Char)} (hout : HasFolder root out)
    (h : resolve root names parts = some out) : HasFolder root names := by
  cases parts with
  | nil =>
    cases h
    exact hout
  | cons part rest =>
    rw [resolve] at h
    split at h
    · next entries hentries => exact ⟨entries, hentries⟩
    · cases h

theorem resolve_append (parts more : List (List Char)) :
    resolve root names (parts ++ more) =
      (resolve root names parts).bind fun names => resolve root names more := by
  induction parts generalizing names with
  | nil => rfl
  | cons part rest ih =>
    rw [List.cons_append, resolve, resolve]
    split
    · split
      · exact ih
      · split
        · exact ih
        · exact ih
    · rfl

/-- Parts that name nothing make no difference on the way to a folder. -/
theorem resolve_named_iff {parts : List (List Char)} (hout : HasFolder root out) :
    resolve root names (named parts) = some out ↔ resolve root names parts = some out := by
  induction parts generalizing names with
  | nil => exact Iff.rfl
  | cons part rest ih =>
    by_cases hvoid : isVoid part = true
    · rw [named_cons_of_isVoid hvoid, ih]
      constructor
      · intro h
        rwa [resolve_of_hasFolder (hout.of_resolve h), if_pos hvoid]
      · intro h
        rwa [resolve_of_hasFolder (hout.of_resolve h), if_pos hvoid] at h
    · have hcons : named (part :: rest) = part :: named rest :=
        List.filter_cons_of_pos (by simp [hvoid])
      rw [hcons]
      by_cases hfolder : HasFolder root names
      · rw [resolve_of_hasFolder hfolder, resolve_of_hasFolder hfolder]
        split
        · exact ih
        · split
          · exact ih
          · exact ih
      · exact iff_of_false (fun h => hfolder (hout.of_resolve h))
          fun h => hfolder (hout.of_resolve h)

end Resolve

section Locate

variable {fs : Files} {path name : String} {folder : List String}
  (hlocate : fs.locate path = some folder) (hfolder : HasFolder fs.root folder)

include hlocate in
theorem ne_empty_of_locate : path ≠ "" := by
  rintro rfl
  cases hlocate

include hlocate in
theorem resolve_of_locate :
    resolve fs.root (fs.start path) (splitOn '/' path.toList) = some folder := by
  rw [locate, if_neg (ne_empty_of_locate hlocate)] at hlocate
  exact hlocate

include hlocate hfolder

/-- A path to a folder that is continued by a name leads to the name in the folder. -/
theorem locate_join (hname : IsName name) :
    fs.locate (join path name) = some (folder ++ [name]) := by
  have hpath := ne_empty_of_locate hlocate
  obtain ⟨parts, hjoin, hparts⟩ := exists_splitOn_join hpath hname
  have hfront : resolve fs.root (fs.start path) parts = some folder := by
    have hnamed : named parts = named (splitOn '/' path.toList) := by
      rcases hparts with hparts | hparts <;> rw [hparts]
      rw [named_append]
      exact (List.append_nil _).symm
    rw [← resolve_named_iff hfolder, hnamed, resolve_named_iff hfolder]
    exact resolve_of_locate hlocate
  have hstart : fs.start (join path name) = fs.start path := by
    rw [start, isAbsolute_join hpath hname, start]
  rw [locate, if_neg (join_ne_empty hpath hname), hjoin, hstart, resolve_append, hfront,
    Option.bind_some, resolve_of_hasFolder hfolder, if_neg (by simp [hname.isVoid_eq_false]),
    if_neg hname.toList_ne.2.2, String.ofList_toList]
  rfl

/-- Without the name it leads to the folder again. -/
theorem exists_locate_parent? (hname : IsName name) :
    ∃ parent, parent? (join path name) = some parent ∧ fs.locate parent = some folder := by
  obtain ⟨parent, hparent, hne, habsolute, hnamed⟩ :=
    exists_parent?_join (ne_empty_of_locate hlocate) hname
  refine ⟨parent, hparent, ?_⟩
  rw [locate, if_neg hne, ← resolve_named_iff hfolder, hnamed, resolve_named_iff hfolder, start,
    habsolute]
  exact resolve_of_locate hlocate

end Locate

end Files

end Casebook
