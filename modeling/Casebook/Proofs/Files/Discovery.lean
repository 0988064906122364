import Casebook.Proofs.Dictionary
import Casebook.Proofs.Files.Locations
import Mathlib.Data.List.Count

/-!
# Which testsets a folder has

Walking a folder comes across every file that names lead to, and across each of them once, except
those on the way to which lies a folder that is left out (`FileNode.exists_walked`). The testsets of
a folder are the definition files that are left. The walk leaves out folders that bear the whole
text of the configured dependency area as their name, and an area is found by continuing a path by
that text. Main statement: the two are the same if the text is a name, and then testsets lie outside
all areas; if it has a slash in it no folder bears it as its name, and nothing is left out.
-/

namespace Casebook

open Path

/-! ## Walking -/

namespace FileNode

/-- Entries of one folder have different names, and these are names; so in the folders beneath. -/
inductive WellNamed : FileNode → Prop
  | file (text : Option String) : WellNamed (.file text)
  | locked : WellNamed .locked
  | folder {entries : List (String × FileNode)} (nodup : (entries.map Prod.fst).Nodup)
      (names : ∀ entry ∈ entries, IsName entry.1) (nodes : ∀ entry ∈ entries, WellNamed entry.2) :
      WellNamed (.folder entries)

/-- Names lead to a file, and not through a folder that is left out. -/
def Reaches (skip : String → Bool) (n : FileNode) (names : List String) : Prop :=
  (∃ text, n.under? names = some (.file text)) ∧ ∀ name ∈ names.dropLast, skip name = false

/-- These are all ways to files, in the order of walking. -/
structure Walked (skip : String → Bool) (n : FileNode) (routes : List (List String)) : Prop where
  filesOf_eq : ∀ path, n.filesOf skip path = routes.map fun names => names.foldl join path
  nodup : routes.Nodup
  mem_iff : ∀ names, names ∈ routes ↔ n.Reaches skip names

variable {skip : String → Bool}

theorem under?_folder_cons (entries : List (String × FileNode)) (name : String)
    (more : List String) :
    (folder entries).under? (name :: more) = (Dict.get? entries name).bind fun n => n.under? more :=
  rfl

theorem not_reaches_folder_nil (entries : List (String × FileNode)) :
    ¬ (folder entries).Reaches skip [] :=
  fun ⟨⟨_, h⟩, _⟩ => nomatch h

/-- The first name leads to an entry, which is not a folder that is left out. -/
theorem reaches_folder_cons {entries : List (String × FileNode)} {name : String}
    {more : List String} :
    (folder entries).Reaches skip (name :: more) ↔ ∃ n, Dict.get? entries name = some n ∧
      (n.isFile = false → skip name = false) ∧ n.Reaches skip more := by
  unfold Reaches
  rw [under?_folder_cons]
  cases hget : Dict.get? entries name with
  | none => simp
  | some n =>
    simp only [Option.bind_some, Option.some.injEq, exists_eq_left']
    cases more with
    | nil =>
      have hfile : (∃ text, n.under? [] = some (.file text)) → n.isFile = true := by
        rintro ⟨text, htext⟩
        cases htext
        rfl
      constructor
      · rintro ⟨htext, -⟩
        exact ⟨fun h => absurd (hfile htext) (by simp [h]), htext, nofun⟩
      · rintro ⟨-, htext, -⟩
        exact ⟨htext, nofun⟩
    | cons next rest =>
      have hnot : (∃ text, n.under? (next :: rest) = some (.file text)) → n.isFile = false := by
        rintro ⟨text, htext⟩
        cases n with
        | file _ => cases htext
        | folder _ | locked => rfl
      rw [List.dropLast_cons_cons, List.forall_mem_cons]
      constructor
      · rintro ⟨htext, hname, hrest⟩
        exact ⟨fun _ => hname, htext, hrest⟩
      · rintro ⟨hname, htext, hrest⟩
        exact ⟨htext, hname (hnot htext), hrest⟩

theorem filesOfEntries_cons (path name : String) (n : FileNode)
    (rest : List (String × FileNode)) :
    filesOfEntries skip path ((name, n) :: rest) =
      (if n.isFile = false ∧ skip name = true then [] else n.filesOf skip (join path name)) ++
        filesOfEntries skip path rest := by
  cases n with
  | file text => rw [filesOfEntries, if_neg (by simp [isFile])]
  | folder entries => rw [filesOfEntries]; simp [isFile]
  | locked => rw [filesOfEntries]; simp [filesOf]

/-- The ways to files from a folder are those through its first entry, unless that is a folder that
is left out, and those through the others. -/
theorem Walked.mem_cons_iff {name : String} {n : FileNode} {rest : List (String × FileNode)}
    {routes more : List (List String)} (hname : name ∉ rest.map Prod.fst)
    (h : n.Walked skip routes) (hrest : (folder rest).Walked skip more) (names : List String) :
    names ∈ (if n.isFile = false ∧ skip name = true then [] else routes.map (name :: ·)) ++ more ↔
      (folder ((name, n) :: rest)).Reaches skip names := by
  rw [List.mem_append, hrest.mem_iff]
  cases names with
  | nil =>
    refine iff_of_false ?_ (not_reaches_folder_nil _)
    rintro (hnil | hnil)
    · split at hnil <;> simp at hnil
    · exact not_reaches_folder_nil _ hnil
  | cons other names =>
    rw [reaches_folder_cons, reaches_folder_cons, Dict.get?_cons]
    by_cases hother : name = other
    · subst hother
      rw [Dict.get?_eq_none_of_not_mem hname, if_pos rfl]
      simp only [Option.some.injEq, exists_eq_left', reduceCtorEq, false_and, exists_false,
        or_false]
      split
      · next hskip =>
        refine iff_of_false List.not_mem_nil fun hreaches => ?_
        cases hskip.2.symm.trans (hreaches.1 hskip.1)
      · next hskip =>
        rw [List.mem_map_of_injective List.cons_injective, h.mem_iff]
        refine (and_iff_right fun hfile => ?_).symm
        exact Bool.eq_false_iff.mpr fun hname => hskip ⟨hfile, hname⟩
    · rw [if_neg hother]
      refine or_iff_right fun hmem => ?_
      split at hmem
      · cases hmem
      · obtain ⟨_, -, heq⟩ := List.mem_map.mp hmem
        cases heq
        exact hother rfl

/-- An entry comes in front of the others, with the ways through it. -/
theorem Walked.cons {name : String} {n : FileNode} {rest : List (String × FileNode)}
    {routes more : List (List String)} (hname : name ∉ rest.map Prod.fst)
    (h : n.Walked skip routes) (hrest : (folder rest).Walked skip more) :
    (folder ((name, n) :: rest)).Walked skip
      ((if n.isFile = false ∧ skip name = true then [] else routes.map (name :: ·)) ++ more) where
  filesOf_eq path := by
    have hmore := hrest.filesOf_eq path
    rw [filesOf] at hmore ⊢
    rw [filesOfEntries_cons, hmore, List.map_append]
    congr 1
    split
    · rfl
    · rw [h.filesOf_eq, List.map_map]
      rfl
  nodup := by
    -- No way through the other entries begins with this name.
    have hother (names : List String) (hmem : names ∈ more) : names.head? ≠ some name := by
      intro hhead
      obtain ⟨names, rfl⟩ := List.head?_eq_some_iff.mp hhead
      obtain ⟨n, hget, -⟩ := reaches_folder_cons.mp ((hrest.mem_iff _).mp hmem)
      cases (Dict.get?_eq_none_of_not_mem hname).symm.trans hget
    refine List.nodup_append.mpr ⟨?_, hrest.nodup, ?_⟩
    · split
      · exact List.nodup_nil
      · exact h.nodup.map List.cons_injective
    · rintro names hnames _ hmore rfl
      split at hnames
      · cases hnames
      · obtain ⟨more, -, rfl⟩ := List.mem_map.mp hnames
        exact hother _ hmore rfl
  mem_iff := h.mem_cons_iff hname hrest

/-- Walking a folder comes across all ways to files if walking its entries does. -/
theorem exists_walked_folder {entries : List (String × FileNode)}
    (nodup : (entries.map Prod.fst).Nodup)
    (h : ∀ entry ∈ entries, ∃ routes, entry.2.Walked skip routes) :
    ∃ routes, (folder entries).Walked skip routes := by
  induction entries with
  | nil =>
    refine ⟨[], fun path => by rw [filesOf, filesOfEntries]; rfl, List.nodup_nil, fun names => ?_⟩
    refine iff_of_false List.not_mem_nil ?_
    rintro ⟨⟨_, htext⟩, -⟩
    cases names <;> cases htext
  | cons entry rest ih =>
    rw [List.forall_mem_cons] at h
    rw [List.map_cons, List.nodup_cons] at nodup
    obtain ⟨routes, hroutes⟩ := h.1
    obtain ⟨more, hmore⟩ := ih nodup.2 h.2
    exact ⟨_, hroutes.cons nodup.1 hmore⟩

/-- Walking comes across all ways to files. The induction is on the tree. -/
theorem exists_walked {n : FileNode} (h : n.WellNamed) (skip : String → Bool) :
    ∃ routes, n.Walked skip routes := by
  induction h with
  | file text =>
    refine ⟨[[]], fun path => by rw [filesOf]; rfl, List.nodup_singleton _, fun names => ?_⟩
    rw [List.mem_singleton]
    constructor
    · rintro rfl
      exact ⟨⟨text, rfl⟩, nofun⟩
    · rintro ⟨⟨_, htext⟩, -⟩
      cases names with
      | nil => rfl
      | cons name more => cases htext
  | locked =>
    refine ⟨[], fun path => by rw [filesOf]; rfl, List.nodup_nil, fun names => ?_⟩
    refine iff_of_false List.not_mem_nil ?_
    rintro ⟨⟨_, htext⟩, -⟩
    cases names <;> cases htext
  | folder nodup _ _ ih => exact exists_walked_folder nodup ih

/-- What lies beneath a folder is well named too, under names. -/
theorem WellNamed.under? {names : List String} {n m : FileNode} (h : n.WellNamed)
    (hunder : n.under? names = some m) : m.WellNamed ∧ ∀ name ∈ names, IsName name := by
  induction names generalizing n with
  | nil =>
    cases hunder
    exact ⟨h, nofun⟩
  | cons name rest ih =>
    cases h with
    | file text => cases hunder
    | locked => cases hunder
    | @folder entries nodup names nodes =>
      rw [under?_folder_cons] at hunder
      obtain ⟨child, hchild, hrest⟩ := Option.bind_eq_some_iff.mp hunder
      have hmem := Dict.mem_of_get? hchild
      obtain ⟨hwell, hnames⟩ := ih (nodes _ hmem) hrest
      exact ⟨hwell, List.forall_mem_cons.mpr ⟨names _ hmem, hnames⟩⟩

end FileNode

/-! ## Paths that are walked -/

namespace Files

variable {fs : Files} {path : String} {folder names : List String} {n : FileNode}

/-- A path continued by names leads to what they lead to. -/
theorem locate_foldl (wellNamed : fs.root.WellNamed) (hlocate : fs.locate path = some folder)
    (hnode : fs.root.under? folder = some n) {m : FileNode} (hunder : n.under? names = some m) :
    fs.locate (names.foldl join path) = some (folder ++ names) := by
  induction names generalizing path folder n with
  | nil => rwa [List.append_nil]
  | cons name rest ih =>
    obtain ⟨hwell, -⟩ := wellNamed.under? hnode
    obtain ⟨-, hnames⟩ := hwell.under? hunder
    cases n with
    | file text => cases hunder
    | locked => cases hunder
    | folder entries =>
      rw [FileNode.under?_folder_cons] at hunder
      obtain ⟨child, hchild, hrest⟩ := Option.bind_eq_some_iff.mp hunder
      have hstep := locate_join hlocate ⟨entries, hnode⟩ (hnames name List.mem_cons_self)
      have hbelow : fs.root.under? (folder ++ [name]) = some child := by
        rw [FileNode.under?_append, hnode, Option.bind_some, FileNode.under?_folder_cons, hchild]
        rfl
      have hmore := ih hstep hbelow hrest
      rwa [List.append_assoc] at hmore

/-- Names lead through folders. -/
theorem exists_folder_of_under? {m : FileNode} {name : String} {more : List String}
    (h : n.under? (names ++ name :: more) = some m) :
    ∃ entries, n.under? names = some (.folder entries) := by
  rw [FileNode.under?_append] at h
  obtain ⟨inner, hinner, hrest⟩ := Option.bind_eq_some_iff.mp h
  cases inner with
  | file _ => cases hrest
  | locked => cases hrest
  | folder entries => exact ⟨entries, hinner⟩

/-- Names from the root on lead to a file that is named as a definition. -/
def IsDefinition (fs : Files) (names : List String) : Prop :=
  (∃ text, fs.root.under? names = some (.file text)) ∧
    ∃ name, names.getLast? = some name ∧ Source.isDefinition name = true

/-- Names lead to a place beneath the one that a path leads to. -/
def Beneath (fs : Files) (names : List String) (path : String) : Prop :=
  ∃ folder more, fs.locate path = some folder ∧ more ≠ [] ∧ names = folder ++ more

/-- A path leads to a folder at or beneath the place that another one leads to. -/
def IsFolderWithin (fs : Files) (q path : String) : Prop :=
  ∃ folder more, fs.locate path = some folder ∧ fs.locate q = some (folder ++ more) ∧
    HasFolder fs.root (folder ++ more)

end Files

/-! ## Dependency areas -/

namespace Layout

open Files

variable {fs : Files} {layout : Layout} {folder : List String}

/-- The area of a folder is the entry of its name in the folder. -/
theorem locate_area_of_folder (hname : IsName layout.dependencies) {q : String}
    (hlocate : fs.locate q = some folder) (hfolder : HasFolder fs.root folder) :
    fs.locate (layout.area fs q) = some (folder ++ [layout.dependencies]) := by
  have his : fs.isFolderAt q = true := by
    obtain ⟨entries, hentries⟩ := hfolder
    rw [isFolderAt, find?_eq, hlocate, Option.bind_some, hentries]
    rfl
  rw [area, if_pos his]
  exact locate_join hlocate hfolder hname

/-- The area of a file is that of the folder it lies in. -/
theorem locate_area_of_file (hname : IsName layout.dependencies) {q name : String}
    (hlocate : fs.locate q = some folder) (hfolder : HasFolder fs.root folder) (hfile : IsName name)
    {text : Option String} (htext : fs.root.under? (folder ++ [name]) = some (.file text)) :
    fs.locate (layout.area fs (join q name)) = some (folder ++ [layout.dependencies]) := by
  have his : ¬ fs.isFolderAt (join q name) = true := by
    rw [isFolderAt, find?_eq, locate_join hlocate hfolder hfile, Option.bind_some, htext]
    exact Bool.false_ne_true
  obtain ⟨parent, hparent, hleads⟩ := exists_locate_parent? hlocate hfolder hfile
  rw [area, if_neg his, hparent, Option.getD_some]
  exact locate_join hleads hfolder hname

end Layout

/-! ## The testsets of a folder -/

namespace Source

open Files FileNode

variable {fs : Files} {layout : Layout} {path : String}

/-- The testsets of a folder are the definition files beneath it that names lead to, but not through
a folder that bears the name of a dependency area. -/
structure Discovers (fs : Files) (layout : Layout) (path : String) (folder : List String)
    (routes : List (List String)) : Prop where
  locate_eq : fs.locate path = some folder
  testsetsAt_eq : testsetsAt fs layout path = .ok (routes.map fun names => names.foldl join path)
  nodup : routes.Nodup
  mem_iff : ∀ names, names ∈ routes ↔
    fs.IsDefinition (folder ++ names) ∧ names ≠ [] ∧ layout.dependencies ∉ names.dropLast

/-- A path that ends with a name is that of a definition if the name is. -/
theorem isDefinition_join {name : String} (hpath : path ≠ "") (hname : IsName name) :
    isDefinition (join path name) = isDefinition name := by
  rw [isDefinition, isDefinition, extension?_join hpath hname]

/-- The path of a file that is walked is that of a definition if the name of the file is. -/
theorem isDefinition_foldl {folder init : List String} {last : String} {n : FileNode}
    (wellNamed : fs.root.WellNamed) (hlocate : fs.locate path = some folder)
    (hnode : fs.root.under? folder = some n) {text : Option String}
    (htext : n.under? (init ++ [last]) = some (.file text)) :
    isDefinition ((init ++ [last]).foldl join path) = isDefinition last := by
  obtain ⟨inner, hinner⟩ := exists_folder_of_under? htext
  have hpath := ne_empty_of_locate (locate_foldl wellNamed hlocate hnode hinner)
  have hnames := ((wellNamed.under? hnode).1.under? htext).2
  rw [List.foldl_append]
  exact isDefinition_join hpath (hnames last (List.mem_append_right init List.mem_cons_self))

/-- A path to a folder in which all folders can be listed leads to the entries of the folder. -/
theorem exists_entries_of_isListableAt {skip : String → Bool}
    (hfolder : fs.isFolderAt path = true) (hlist : fs.isListableAt skip path = true) :
    ∃ folder entries, fs.locate path = some folder ∧
      fs.root.under? folder = some (.folder entries) := by
  rw [isFolderAt, find?_eq] at hfolder
  rw [isListableAt, find?_eq] at hlist
  cases hlocate : fs.locate path with
  | none => simp [hlocate] at hfolder
  | some folder =>
    rw [hlocate, Option.bind_some] at hfolder hlist
    cases hnode : fs.root.under? folder with
    | none => simp [hnode] at hfolder
    | some n =>
      rw [hnode] at hfolder hlist
      cases n with
      | file text => cases hfolder
      | locked => simp [isListable] at hlist
      | folder entries => exact ⟨folder, entries, rfl, hnode⟩

/-- The definition files that walking a folder comes across are those that names lead to, but not
through a folder of some name. -/
theorem reaches_and_isDefinition_iff {folder : List String} {n : FileNode}
    (wellNamed : fs.root.WellNamed) (hlocate : fs.locate path = some folder)
    (hnode : fs.root.under? folder = some n) (hn : n.isFile = false) (area : String)
    (names : List String) :
    n.Reaches (fun name => decide (name = area)) names ∧
        isDefinition (names.foldl join path) = true ↔
      fs.IsDefinition (folder ++ names) ∧ names ≠ [] ∧ area ∉ names.dropLast := by
  have hunder : fs.root.under? (folder ++ names) = n.under? names := by
    rw [FileNode.under?_append, hnode, Option.bind_some]
  rw [Reaches, IsDefinition, hunder]
  rcases List.eq_nil_or_concat names with rfl | ⟨init, last, rfl⟩
  · refine iff_of_false ?_ fun h => h.2.1 rfl
    rintro ⟨⟨⟨text, htext⟩, -⟩, -⟩
    cases htext
    cases hn
  · rw [List.concat_eq_append]
    have hskip : (∀ name ∈ (init ++ [last]).dropLast, decide (name = area) = false) ↔
        area ∉ (init ++ [last]).dropLast := by
      simp only [decide_eq_false_iff_not]
      exact ⟨fun h hmem => h _ hmem rfl, fun h name hmem heq => h (heq ▸ hmem)⟩
    rw [hskip]
    constructor
    · rintro ⟨⟨⟨text, htext⟩, hout⟩, hdefinition⟩
      rw [isDefinition_foldl wellNamed hlocate hnode htext] at hdefinition
      exact ⟨⟨⟨text, htext⟩, last, by simp, hdefinition⟩, by simp, hout⟩
    · rintro ⟨⟨⟨text, htext⟩, name, hname, hdefinition⟩, -, hout⟩
      obtain rfl : last = name := by simpa using hname
      exact ⟨⟨⟨text, htext⟩, hout⟩,
        (isDefinition_foldl wellNamed hlocate hnode htext).trans hdefinition⟩

theorem exists_discovers (wellNamed : fs.root.WellNamed) (hfolder : fs.isFolderAt path = true)
    (hlist : fs.isListableAt (· = layout.dependencies) path = true) :
    ∃ folder routes, Discovers fs layout path folder routes := by
  obtain ⟨folder, entries, hlocate, hnode⟩ := exists_entries_of_isListableAt hfolder hlist
  have hfind : fs.find? path = some (.folder entries) := by
    rw [find?_eq, hlocate, Option.bind_some, hnode]
  have hwell := (wellNamed.under? hnode).1
  obtain ⟨all, hall⟩ := exists_walked hwell fun name => decide (name = layout.dependencies)
  refine ⟨folder, all.filter fun names => isDefinition (names.foldl join path), hlocate, ?_,
    hall.nodup.filter _, fun names => ?_⟩
  · have hfile : fs.isFileAt path = false := by
      rw [isFileAt, hfind]
      rfl
    rw [testsetsAt, if_neg (by simp [hfile]), if_pos hfolder, if_pos hlist, filesBeneath, hfind]
    dsimp only
    rw [hall.filesOf_eq, List.filter_map]
    rfl
  · rw [List.mem_filter, hall.mem_iff]
    exact reaches_and_isDefinition_iff wellNamed hlocate hnode rfl layout.dependencies names

/-! ### What is discovered -/

section Discovers

variable {folder names : List String} {routes : List (List String)}
  (h : Discovers fs layout path folder routes) (wellNamed : fs.root.WellNamed)

include h wellNamed

/-- Names beneath the folder that lead somewhere are led to by the path that they continue. -/
theorem Discovers.locate_foldl {m : FileNode} (hunder : fs.root.under? (folder ++ names) = some m) :
    fs.locate (names.foldl join path) = some (folder ++ names) := by
  rw [FileNode.under?_append] at hunder
  obtain ⟨n, hnode, hnames⟩ := Option.bind_eq_some_iff.mp hunder
  exact Files.locate_foldl wellNamed h.locate_eq hnode hnames

theorem Discovers.locate_of_mem (hmem : names ∈ routes) :
    fs.locate (names.foldl join path) = some (folder ++ names) := by
  obtain ⟨⟨⟨text, htext⟩, -⟩, -⟩ := (h.mem_iff names).mp hmem
  exact h.locate_foldl wellNamed htext

/-- What is discovered is returned once. -/
theorem Discovers.count_eq_one (hmem : names ∈ routes) :
    ((routes.map fun names => names.foldl join path).map fs.locate).count
      (some (folder ++ names)) = 1 := by
  have hlocated : (routes.map fun names => names.foldl join path).map fs.locate =
      routes.map fun names => some (folder ++ names) := by
    rw [List.map_map]
    exact List.map_congr_left fun names hnames => h.locate_of_mem wellNamed hnames
  have hinjective : Function.Injective fun names : List String => some (folder ++ names) :=
    fun names more heq => List.append_cancel_left (Option.some.inj heq)
  rw [hlocated]
  exact List.count_eq_one_of_mem (h.nodup.map hinjective)
    (List.mem_map_of_mem (f := fun names => some (folder ++ names)) hmem)

omit wellNamed in
/-- Nothing that is discovered lies beneath an area in the folder or beneath it. -/
theorem Discovers.not_beneath (hmem : names ∈ routes) {area : String} {front : List String}
    (harea : fs.locate area = some (folder ++ front ++ [layout.dependencies])) :
    ¬ fs.Beneath (folder ++ names) area := by
  rintro ⟨_, more, hlocate, hmore, heq⟩
  obtain rfl := Option.some.inj (harea.symm.trans hlocate)
  rw [List.append_assoc, List.append_assoc] at heq
  have hnames : names = front ++ ([layout.dependencies] ++ more) := List.append_cancel_left heq
  refine ((h.mem_iff names).mp hmem).2.2 ?_
  rw [hnames, List.dropLast_append_of_ne_nil (by simp), List.dropLast_append_of_ne_nil hmore]
  simp

/-- The area of what is discovered is an entry of the folder that it lies in. -/
theorem Discovers.locate_area (hname : IsName layout.dependencies) (hmem : names ∈ routes) :
    ∃ front, fs.locate (layout.area fs (names.foldl join path)) =
      some (folder ++ front ++ [layout.dependencies]) := by
  obtain ⟨⟨⟨text, htext⟩, -⟩, hne, -⟩ := (h.mem_iff names).mp hmem
  rcases List.eq_nil_or_concat names with rfl | ⟨init, last, rfl⟩
  · exact absurd rfl hne
  · rw [List.concat_eq_append] at htext ⊢
    rw [← List.append_assoc] at htext
    obtain ⟨entries, hentries⟩ := exists_folder_of_under? htext
    have hlast : IsName last :=
      (wellNamed.under? htext).2 last (List.mem_append_right _ List.mem_cons_self)
    refine ⟨init, ?_⟩
    rw [List.foldl_append]
    exact Layout.locate_area_of_file hname (h.locate_foldl wellNamed hentries) ⟨entries, hentries⟩
      hlast htext

/-- A definition beneath the folder is discovered if it lies beneath no area. -/
theorem Discovers.mem_of_outside (hname : IsName layout.dependencies)
    (hdefinition : fs.IsDefinition (folder ++ names)) (hne : names ≠ [])
    (houtside : ∀ q, fs.IsFolderWithin q path →
      ¬ fs.Beneath (folder ++ names) (layout.area fs q)) :
    names ∈ routes := by
  refine (h.mem_iff names).mpr ⟨hdefinition, hne, fun hmem => ?_⟩
  obtain ⟨front, back, hdropLast⟩ := List.append_of_mem hmem
  have hnames : names = front ++ layout.dependencies :: (back ++ [names.getLast hne]) := by
    rw [← List.cons_append, ← List.append_assoc, ← hdropLast, List.dropLast_append_getLast]
  -- The folder whose area is on the way is the one that the names in front lead to.
  obtain ⟨⟨text, htext⟩, -⟩ := hdefinition
  rw [hnames, ← List.append_assoc] at htext
  obtain ⟨entries, hentries⟩ := exists_folder_of_under? htext
  have hlocate := h.locate_foldl wellNamed hentries
  refine houtside (front.foldl join path)
    ⟨folder, front, h.locate_eq, hlocate, entries, hentries⟩ ?_
  refine ⟨_, back ++ [names.getLast hne],
    Layout.locate_area_of_folder hname hlocate ⟨entries, hentries⟩, by simp, ?_⟩
  conv_lhs => rw [hnames]
  simp

/-- A definition beneath the folder is discovered if no entry can bear the name of an area. -/
theorem Discovers.mem_of_slash (hslash : '/' ∈ layout.dependencies.toList)
    (hdefinition : fs.IsDefinition (folder ++ names)) (hne : names ≠ []) : names ∈ routes := by
  refine (h.mem_iff names).mpr ⟨hdefinition, hne, fun hmem => ?_⟩
  obtain ⟨⟨text, htext⟩, -⟩ := hdefinition
  have hname := (wellNamed.under? htext).2 layout.dependencies
    (List.mem_append_right folder ((List.dropLast_sublist names).subset hmem))
  exact hname.1 hslash

end Discovers

/-- The testsets of a folder are definition files beneath it. If a dependency area is an entry of
one name, none of them lies beneath the area of another or that of a folder, and each definition
file beneath the folder that lies beneath no area of a folder is returned once. If an area lies
further down, no folder is left out, and each definition file beneath the folder is returned
once. -/
theorem testsetsAt_of_folder (wellNamed : fs.root.WellNamed) (hfolder : fs.isFolderAt path = true)
    (hlist : fs.isListableAt (· = layout.dependencies) path = true) :
    ∃ returned, testsetsAt fs layout path = .ok returned ∧
      (∀ f ∈ returned, ∃ names, fs.locate f = some names ∧ fs.IsDefinition names ∧
        fs.Beneath names path) ∧
      (IsName layout.dependencies →
        (∀ q, q ∈ returned ∨ fs.IsFolderWithin q path → ∀ f ∈ returned, ∀ names,
          fs.locate f = some names → ¬ fs.Beneath names (layout.area fs q)) ∧
        ∀ names, fs.IsDefinition names → fs.Beneath names path →
          (∀ q, fs.IsFolderWithin q path → ¬ fs.Beneath names (layout.area fs q)) →
            (returned.map fs.locate).count (some names) = 1) ∧
      ('/' ∈ layout.dependencies.toList →
        ∀ names, fs.IsDefinition names → fs.Beneath names path →
          (returned.map fs.locate).count (some names) = 1) := by
  obtain ⟨folder, routes, h⟩ := exists_discovers wellNamed hfolder hlist
  have hbeneath {names : List String} (hnames : fs.Beneath names path) :
      ∃ more, more ≠ [] ∧ names = folder ++ more := by
    obtain ⟨_, more, hlocate, hmore, rfl⟩ := hnames
    cases h.locate_eq.symm.trans hlocate
    exact ⟨more, hmore, rfl⟩
  refine ⟨_, h.testsetsAt_eq, fun f hf => ?_, fun hname => ⟨fun q hq f hf names hlocate => ?_,
    fun names hdefinition hnames houtside => ?_⟩, fun hslash names hdefinition hnames => ?_⟩
  · obtain ⟨names, hmem, rfl⟩ := List.mem_map.mp hf
    obtain ⟨hdefinition, hne, -⟩ := (h.mem_iff names).mp hmem
    exact ⟨_, h.locate_of_mem wellNamed hmem, hdefinition, folder, names, h.locate_eq, hne, rfl⟩
  · obtain ⟨route, hroute, rfl⟩ := List.mem_map.mp hf
    cases (h.locate_of_mem wellNamed hroute).symm.trans hlocate
    rcases hq with hq | ⟨_, front, hpath, hlocate, hlists⟩
    · obtain ⟨other, hother, rfl⟩ := List.mem_map.mp hq
      obtain ⟨front, harea⟩ := h.locate_area wellNamed hname hother
      exact h.not_beneath hroute harea
    · cases h.locate_eq.symm.trans hpath
      exact h.not_beneath hroute (Layout.locate_area_of_folder hname hlocate hlists)
  · obtain ⟨more, hmore, rfl⟩ := hbeneath hnames
    exact h.count_eq_one wellNamed (h.mem_of_outside wellNamed hname hdefinition hmore houtside)
  · obtain ⟨more, hmore, rfl⟩ := hbeneath hnames
    exact h.count_eq_one wellNamed (h.mem_of_slash wellNamed hslash hdefinition hmore)

/-- Two testsets, each with a dependency area. -/
def twoAreas : Files where
  root := .folder
    [("a", .folder [("dependencies", .folder [("x.yaml", .file none)]), ("t.json", .file none)]),
      ("dependencies", .folder [("api", .folder [("y.yaml", .file none)])]),
      ("t.yaml", .file none)]
  here := []

/-- The two are returned once, and what is returned lies beneath no area of another. -/
theorem testsetsAt_twoAreas :
    twoAreas.root.WellNamed ∧ twoAreas.isFolderAt "." = true ∧
      twoAreas.isListableAt (· = Layout.standard.dependencies) "." = true ∧
      ∃ returned, testsetsAt twoAreas .standard "." = .ok returned ∧
        returned = ["./a/t.json", "./t.yaml"] ∧
        (returned.map twoAreas.locate).count (some ["a", "t.json"]) = 1 ∧
        ∀ f ∈ returned, ∀ names, twoAreas.locate f = some names →
          ¬ twoAreas.Beneath names (Layout.standard.area twoAreas "./t.yaml") := by
  have hwell : twoAreas.root.WellNamed := by
    have hfile (name : String) (hname : IsName name) :
        WellNamed (.folder [(name, .file none)]) :=
      .folder (List.nodup_singleton name) (List.forall_mem_singleton.mpr hname)
        (List.forall_mem_singleton.mpr (.file none))
    have harea : WellNamed (.folder [("api", .folder [("y.yaml", .file none)])]) :=
      .folder (List.nodup_singleton _) (by decide)
        (List.forall_mem_singleton.mpr (hfile "y.yaml" (by decide)))
    have hfirst : WellNamed (.folder
        [("dependencies", .folder [("x.yaml", .file none)]), ("t.json", .file none)]) :=
      .folder (by decide) (by decide)
        (by simpa only [List.forall_mem_cons, List.not_mem_nil, false_implies, implies_true,
          and_true] using ⟨hfile "x.yaml" (by decide), .file none⟩)
    exact .folder (by decide) (by decide)
      (by simpa only [List.forall_mem_cons, List.not_mem_nil, false_implies, implies_true,
          and_true] using ⟨hfirst, harea, .file none⟩)
  have hfolder : twoAreas.isFolderAt "." = true := by decide +kernel
  have hlist : twoAreas.isListableAt (· = Layout.standard.dependencies) "." = true := by
    decide +kernel
  have hname : IsName Layout.standard.dependencies := by decide
  obtain ⟨returned, hreturned, -, hareas, -⟩ := testsetsAt_of_folder hwell hfolder hlist
  obtain ⟨hbeneath, honce⟩ := hareas hname
  have hall : testsetsAt twoAreas .standard "." = .ok ["./a/t.json", "./t.yaml"] := by
    decide +kernel
  obtain rfl : returned = ["./a/t.json", "./t.yaml"] := by
    cases hreturned.symm.trans hall
    rfl
  refine ⟨hwell, hfolder, hlist, _, hreturned, rfl, ?_, fun f hf names hlocate => ?_⟩
  · refine honce ["a", "t.json"] ⟨⟨none, rfl⟩, "t.json", rfl, by decide +kernel⟩
      ⟨[], ["a", "t.json"], by decide +kernel, by decide, rfl⟩ ?_
    rintro q ⟨folder, more, -, hlocate, hlists⟩ ⟨area, rest, harea, -, heq⟩
    cases (Layout.locate_area_of_folder hname hlocate hlists).symm.trans harea
    -- The area is not on the way.
    have hmem : Layout.standard.dependencies ∈ ["a", "t.json"] := by
      rw [heq]
      simp
    exact absurd hmem (by decide)
  · exact hbeneath "./t.yaml" (.inl (by decide)) f hf names hlocate

/-- A testset whose dependency area lies two folders further down. -/
def deepArea : Files where
  root := .folder
    [("deps", .folder [("area", .folder [("api", .folder [("x.yaml", .file (some "[]"))])])]),
      ("t.yaml", .file (some "[]"))]
  here := []

/-- The fragments in the area are returned as testsets. -/
theorem testsetsAt_beneath_area :
    let layout : Layout := { Layout.standard with dependencies := "deps/area" }
    testsetsAt deepArea layout "." = .ok ["./deps/area/api/x.yaml", "./t.yaml"] ∧
      layout.area deepArea "./t.yaml" = "./deps/area" ∧
      deepArea.locate "./deps/area/api/x.yaml" = some ["deps", "area", "api", "x.yaml"] ∧
      deepArea.Beneath ["deps", "area", "api", "x.yaml"] "./deps/area" := by
  refine ⟨by decide +kernel, by decide +kernel, by decide +kernel, ["deps", "area"],
    ["api", "x.yaml"], by decide +kernel, by decide, rfl⟩

end Source

end Casebook
