import Casebook.Proofs.Composition.Recovery

/-!
# Declarations of fragments

The fragments of a kind are declared in documents beneath a folder, and each is known by the name in
its head. If all documents load, a library is put together from them exactly if no name is declared
twice, be it in one document or in two. What is found under a name then is the one fragment that
declares it. If a name is declared twice, there is no library, and whatever is referred to, the error
tells of the first declaration, by path and place in its document, of a name that was declared before.

`declarations` are the fragments with the paths of their documents, in order; `foldlM_add_eq_error`
is the step at which a name comes again.
-/

namespace Casebook

open Computation

/-! ## The first repetition -/

/-- What is not free of repetitions has a first one: nothing is repeated in front of it. -/
theorem exists_first_repetition {α β : Type} (key : α → β) {items : List α}
    (h : ¬(items.map key).Nodup) :
    ∃ before item after, items = before ++ item :: after ∧ (before.map key).Nodup ∧
      key item ∈ before.map key := by
  obtain ⟨before, item, after, heq, hbefore, hitem⟩ :=
    exists_first_failure (P := fun front => (front.map key).Nodup) List.nodup_nil h
  refine ⟨before, item, after, heq, hbefore, ?_⟩
  by_contra hfresh
  rw [List.map_append] at hitem
  exact hitem (hbefore.append (List.nodup_singleton _) (List.disjoint_singleton.mpr hfresh))

/-! ## Documents and what they declare -/

theorem Source.path_of_apiOfBlock {path : String} {limit : ℕ} {b : Block} {f : Fragment}
    (h : apiOfBlock path limit b = .ok f) : f.path = path := by
  unfold apiOfBlock at h
  by_cases hkey : b.key = "api"
  swap
  · rw [if_pos hkey] at h
    cases h
  simp only [if_neg (not_not.mpr hkey)] at h
  split at h
  · cases h
  · obtain ⟨head, -, h⟩ := bind_eq_ok.mp h
    obtain ⟨fields, -, h⟩ := bind_eq_ok.mp h
    cases h
    rfl

theorem Source.path_of_readSuite {files : Files} {path : String} {limit : ℕ} {f : Fragment}
    (h : readSuite files limit path = .ok f) : f.path = path := by
  obtain ⟨body, -, h⟩ := bind_eq_ok.mp h
  obtain ⟨document, -, h⟩ := bind_eq_ok.mp h
  split at h
  · cases h
  · obtain ⟨head, -, h⟩ := bind_eq_ok.mp h
    cases h
    rfl

/-- A fragment has the path of the document that it was read from. -/
theorem Source.path_of_readFragments {files : Files} {kind : FragmentKind} {limit : ℕ}
    {path : String} {fragments : List Fragment}
    (h : readFragments files kind limit path = .ok fragments) {f : Fragment} (hf : f ∈ fragments) :
    f.path = path := by
  cases kind with
  | api =>
    obtain ⟨value, -, h⟩ := bind_eq_ok.mp h
    obtain ⟨blocks, -, h⟩ := bind_eq_ok.mp h
    obtain ⟨b, -, hb⟩ := exists_of_mem_mapM h hf
    exact path_of_apiOfBlock hb
  | suite =>
    obtain ⟨f', hsuite, rfl⟩ := map_eq_ok.mp h
    obtain rfl := List.mem_singleton.mp hf
    exact path_of_readSuite hsuite

namespace Library

/-- All documents beneath a folder load: these are their paths, in order, and the fragments of a kind
that each of them declares, in order. -/
structure Loads (files : Files) (kind : FragmentKind) (limit : ℕ) (folder : String)
    (documents : List (String × List Fragment)) : Prop where
  paths : Source.definitionsIn files folder = .ok (documents.map Prod.fst)
  fragments : ∀ d ∈ documents, Source.readFragments files kind limit d.1 = .ok d.2

/-- The fragments that documents declare, each with the path of its document, in order. -/
def declarations (documents : List (String × List Fragment)) : List (String × Fragment) :=
  documents.flatMap fun d => d.2.map fun f => (d.1, f)

/-- The name that is declared. -/
def declaredName (d : String × Fragment) : String :=
  d.2.head.name

section

variable {files : Files} {kind : FragmentKind} {limit : ℕ} {folder : String}
  {documents : List (String × List Fragment)}

theorem map_snd_declarations (documents : List (String × List Fragment)) :
    (declarations documents).map Prod.snd = documents.flatMap Prod.snd := by
  simp [declarations, List.map_flatMap, Function.comp_def]

theorem Loads.path_eq (h : Loads files kind limit folder documents) {d : String × Fragment}
    (hd : d ∈ declarations documents) : d.2.path = d.1 := by
  obtain ⟨document, hdocument, hd⟩ := List.mem_flatMap.mp hd
  obtain ⟨f, hf, rfl⟩ := List.mem_map.mp hd
  exact Source.path_of_readFragments (h.fragments document hdocument) hf

theorem Loads.mem_map_snd_iff (h : Loads files kind limit folder documents) {f : Fragment} :
    f ∈ (declarations documents).map Prod.snd ↔ (f.path, f) ∈ declarations documents := by
  refine ⟨fun hf => ?_, List.mem_map_of_mem (f := Prod.snd)⟩
  obtain ⟨d, hd, rfl⟩ := List.mem_map.mp hf
  rwa [h.path_eq hd]

theorem map_declaredName (documents : List (String × List Fragment)) :
    (declarations documents).map declaredName =
      ((declarations documents).map Prod.snd).map fun f => f.head.name := by
  rw [List.map_map]
  rfl

/-- Adding the fragments of documents that load is adding what they declare. -/
theorem foldlM_addDocument_of_loaded {l : Library}
    (h : ∀ d ∈ documents, Source.readFragments files kind limit d.1 = .ok d.2) :
    (documents.map Prod.fst).foldlM (addDocument files kind limit) l =
      (documents.flatMap Prod.snd).foldlM (add kind) l := by
  induction documents generalizing l with
  | nil => rfl
  | cons d rest ih =>
    obtain ⟨hd, hrest⟩ := List.forall_mem_cons.mp h
    have hadd : addDocument files kind limit l d.1 = d.2.foldlM (add kind) l := by
      rw [addDocument, hd, ok_bind]
    rw [List.map_cons, List.foldlM_cons, hadd, List.flatMap_cons, List.foldlM_append]
    exact congrArg _ (funext fun _ => ih hrest)

theorem Loads.read_eq (h : Loads files kind limit folder documents) :
    read files kind limit folder =
      ((declarations documents).map Prod.snd).foldlM (add kind) [] := by
  rw [read, h.paths, ok_bind, foldlM_addDocument_of_loaded h.fragments, map_snd_declarations]

/-- A library with the fragments of different names is what comes of adding them. -/
theorem foldlM_add_eq_ok {fragments : List Fragment}
    (h : (fragments.map fun f => f.head.name).Nodup) :
    fragments.foldlM (add kind) [] = .ok (Dict.ofList (fragments.map entry)) :=
  foldlM_add_eq_ok_iff.mpr ⟨fun _ _ => rfl, h, rfl⟩

theorem get?_ofList_entry_iff {fragments : List Fragment}
    (h : (fragments.map fun f => f.head.name).Nodup) {name : String} {f : Fragment} :
    (Dict.ofList (fragments.map entry)).get? name = some f ↔ f ∈ fragments ∧ f.head.name = name := by
  have hkeys : ((fragments.map entry).map Prod.fst).Nodup := by rwa [List.map_map]
  rw [Dict.get?_ofList_eq_some_iff hkeys, List.mem_map]
  constructor
  · rintro ⟨f', hf', heq⟩
    obtain ⟨rfl, rfl⟩ := Prod.mk.inj heq
    exact ⟨hf', rfl⟩
  · rintro ⟨hf, rfl⟩
    exact ⟨f, hf, rfl⟩

/-- Behind fragments of different names, a name that one of them has cannot be added again. -/
theorem foldlM_add_eq_error {before : List Fragment}
    (hnodup : (before.map fun f => f.head.name).Nodup) {first again : Fragment}
    (hfirst : first ∈ before) (hname : first.head.name = again.head.name) (after : List Fragment) :
    (before ++ again :: after).foldlM (add kind) [] =
      .error (.duplicateDefinition kind.name again.head.name first.path again.path) := by
  have hget := (get?_ofList_entry_iff hnodup).mpr ⟨hfirst, hname⟩
  rw [List.foldlM_append, foldlM_add_eq_ok hnodup, ok_bind, List.foldlM_cons, add, hget]
  rfl

/-- The error that adding declarations ends in tells of the documents in which they stand. -/
theorem Loads.foldlM_add_declarations (h : Loads files kind limit folder documents)
    {before after : List (String × Fragment)} {first again : String × Fragment}
    (heq : declarations documents = before ++ again :: after)
    (hnodup : (before.map declaredName).Nodup) (hfirst : first ∈ before)
    (hname : declaredName first = declaredName again) :
    ((declarations documents).map Prod.snd).foldlM (add kind) [] =
      .error (.duplicateDefinition kind.name (declaredName again) first.1 again.1) := by
  have hpaths : first.2.path = first.1 ∧ again.2.path = again.1 := by
    refine ⟨h.path_eq ?_, h.path_eq ?_⟩ <;> rw [heq]
    · exact List.mem_append_left _ hfirst
    · exact List.mem_append_right _ List.mem_cons_self
  have hbefore : ((before.map Prod.snd).map fun f => f.head.name).Nodup := by rwa [List.map_map]
  rw [heq, List.map_append, List.map_cons, ← hpaths.1, ← hpaths.2]
  exact foldlM_add_eq_error hbefore (List.mem_map_of_mem (f := Prod.snd) hfirst) hname _

/-- If a name is declared twice, adding declarations ends at the first one of a name that was declared
before. -/
theorem Loads.exists_declared_again (h : Loads files kind limit folder documents)
    (hrepeated : ¬((declarations documents).map declaredName).Nodup) :
    ∃ before first between again after,
      declarations documents = before ++ first :: (between ++ again :: after) ∧
      ((before ++ first :: between).map declaredName).Nodup ∧
      declaredName first = declaredName again ∧
      ((declarations documents).map Prod.snd).foldlM (add kind) [] =
        .error (.duplicateDefinition kind.name (declaredName again) first.1 again.1) := by
  obtain ⟨front, again, after, hdeclared, hfront, hagain⟩ :=
    exists_first_repetition declaredName hrepeated
  obtain ⟨first, hfirst, hname⟩ := List.mem_map.mp hagain
  have herror := h.foldlM_add_declarations hdeclared hfront hfirst hname
  obtain ⟨before, between, rfl⟩ := List.append_of_mem hfirst
  exact ⟨before, first, between, again, after, by simpa using hdeclared, hfront, hname, herror⟩

end

end Library

/-! ## References -/

namespace Composition

open Composer Library

/-- A request is a reference to a fragment of a kind. -/
inductive Request.RefersTo : FragmentKind → Request → Prop where
  | api (base : Case) (r : Reference) : RefersTo .api (.api base r)
  | suite (r : Reference) : RefersTo .suite (.suite r)

/-- Where the fragments of a kind cannot be read, no reference to one can be served, and the composer
stays as it is. -/
theorem exec_serve_of_index_error {files : Files} {kind : FragmentKind} {s : Composition} {e : Error}
    (h : s.composer.index files kind = .error e) {request : Request} (hkind : request.RefersTo kind) :
    exec (request.serve files) s = (.error e, s) := by
  have hindexed : s.composer.indexed files kind = s.composer := indexed_of_error h
  cases hkind with
  | api base r =>
    rw [Request.serve, exec_bind, exec_mergeApi, fieldsFor, lookup, h, hindexed]
    rfl
  | suite r =>
    have hexpand : exec (expand files r) s = (.error e, s) := by
      rw [expand, exec_bind, exec_library, h, hindexed]
    rw [Request.serve, exec_bind, hexpand]

section Served

variable {files : Files} {area : String} {layout : Layout} {kind : FragmentKind}
  {documents : List (String × List Fragment)}

/-- Whatever was asked for before, the fragments of a kind that a composer goes by are those that the
documents declare, as long as the files stay as they are. -/
theorem index_served (loads : Loads files kind layout.depth (layout.folder kind area) documents)
    {demands : List Demand} (same : ∀ demand ∈ demands, demand.files = files) :
    (served area layout demands).composer.index files kind =
      ((declarations documents).map Prod.snd).foldlM (add kind) [] := by
  have hhistory : ∀ fs ∈ demands.map Demand.files, fs = files := fun fs hfs => by
    obtain ⟨demand, hdemand, rfl⟩ := List.mem_map.mp hfs
    exact same demand hdemand
  rw [(intact_served area layout demands).located.index_eq hhistory kind, Expansion.library,
    loads.read_eq]

theorem folder_served (demands : List Demand) (kind : FragmentKind) :
    (served area layout demands).composer.folder kind = layout.folder kind area := by
  have hlocated := (intact_served area layout demands).located
  rw [Composer.folder, hlocated.area_eq, hlocated.layout_eq]

/-- If no name is declared twice, what a name leads to is what declares it. -/
theorem exists_lookup_served
    (loads : Loads files kind layout.depth (layout.folder kind area) documents)
    {demands : List Demand} (same : ∀ demand ∈ demands, demand.files = files)
    (hnodup : ((declarations documents).map declaredName).Nodup) (name : String) :
    ∃ found : Option Fragment,
      (∀ f, found = some f ↔ (f.path, f) ∈ declarations documents ∧ f.head.name = name) ∧
      (served area layout demands).composer.lookup files kind name =
        match found with
        | some f => .ok f
        | none => .error (.unresolved kind.name name [layout.folder kind area]) := by
  rw [map_declaredName] at hnodup
  refine ⟨(Dict.ofList (((declarations documents).map Prod.snd).map entry)).get? name,
    fun f => ?_, ?_⟩
  · rw [get?_ofList_entry_iff hnodup, loads.mem_map_snd_iff]
  · rw [lookup, index_served loads same, foldlM_add_eq_ok hnodup, folder_served, ok_bind]
    rfl

/-- The names of fragments are unambiguous. If all documents beneath the folder of a kind load, then
at every reference, the first one or one after any other demands, the fragments of the kind are there
exactly if no name is declared twice, in one document or in two. In this case a name leads to the one
fragment that declares it, and to the error that it is unresolved if none does. Otherwise every
reference, to whichever name, ends in the same error: it tells of the first declaration of a name that
was declared before, and of the documents in which the two stand. -/
theorem declarations_unambiguous
    (loads : Loads files kind layout.depth (layout.folder kind area) documents)
    (demands : List Demand) (same : ∀ demand ∈ demands, demand.files = files) :
    let s := served area layout demands
    let declared := declarations documents
    ((∃ l, (exec (library files kind) s).1 = .ok l) ↔ (declared.map declaredName).Nodup) ∧
    ((declared.map declaredName).Nodup → ∀ name,
      (∀ f, (exec (fragment files kind name) s).1 = .ok f ↔
        (f.path, f) ∈ declared ∧ f.head.name = name) ∧
      ((exec (fragment files kind name) s).1 =
          .error (.unresolved kind.name name [layout.folder kind area]) ↔
        ∀ d ∈ declared, declaredName d ≠ name)) ∧
    (¬(declared.map declaredName).Nodup → ∃ before path f between path' f' after,
      declared = before ++ (path, f) :: (between ++ (path', f') :: after) ∧
      ((before ++ (path, f) :: between).map declaredName).Nodup ∧ f.head.name = f'.head.name ∧
      let duplicate := Error.duplicateDefinition kind.name f'.head.name path path'
      (∀ name, exec (fragment files kind name) s = (.error duplicate, s)) ∧
      ∀ request : Request, request.RefersTo kind →
        exec (request.serve files) s = (.error duplicate, s)) := by
  intro s declared
  have hindex := index_served loads same
  refine ⟨⟨fun h => ?_, fun hnodup => ?_⟩, fun hnodup name => ?_, fun hrepeated => ?_⟩
  · obtain ⟨l, hl⟩ := h
    rw [exec_library, hindex] at hl
    rw [map_declaredName]
    exact (foldlM_add_eq_ok_iff.mp hl).2.1
  · rw [map_declaredName] at hnodup
    exact ⟨_, by rw [exec_library, hindex, foldlM_add_eq_ok hnodup]⟩
  · obtain ⟨found, hfound, hlookup⟩ := exists_lookup_served loads same hnodup name
    rw [exec_fragment, hlookup]
    cases found with
    | some g =>
      obtain ⟨hg, hname⟩ := (hfound g).mp rfl
      refine ⟨fun f => ?_, iff_of_false nofun fun h => h (g.path, g) hg hname⟩
      rw [← hfound f, Except.ok.injEq, Option.some.injEq]
    | none =>
      refine ⟨fun f => iff_of_false nofun fun h => ?_, iff_of_true rfl fun d hd hname => ?_⟩
      · cases (hfound f).mpr h
      have hmem : (d.2.path, d.2) ∈ declared := by rwa [loads.path_eq hd]
      cases (hfound d.2).mpr ⟨hmem, hname⟩
  · obtain ⟨before, first, between, again, after, hdeclared, hdistinct, hname, hadding⟩ :=
      loads.exists_declared_again hrepeated
    have herror := hindex.trans hadding
    refine ⟨before, first.1, first.2, between, again.1, again.2, after, hdeclared, hdistinct, hname,
      fun name => ?_, fun request hrequest => exec_serve_of_index_error herror hrequest⟩
    rw [exec_fragment, lookup, herror, indexed_of_error herror]
    rfl

end Served

/-- Four api fragments in two documents; the last one has the name of the first. -/
def repeatedApis : Files where
  here := []
  root := .folder [("dependencies", .folder [("api", .folder [
    ("a.yaml", .file (some "- api:\n    def: login($user)\n- api:\n    def: logout\n")),
    ("b.yaml", .file (some "- api:\n    def: ping\n- api:\n    def: login\n"))])])]

/-- A request for the one fragment of a name that is not repeated. -/
def pingDemand : Demand where
  files := repeatedApis
  request := .api (.blank "A" "d") ⟨.api, ⟨"ping", []⟩, "ping"⟩

/-- All documents load, but every reference fails, also after another one failed. -/
theorem declarations_unambiguous_repeated :
    let s := served "dependencies" .standard [pingDemand]
    let duplicate := Error.duplicateDefinition "api" "login" "dependencies/api/a.yaml"
      "dependencies/api/b.yaml"
    ∃ documents, Loads repeatedApis .api defaultDepth "dependencies/api" documents ∧
      (declarations documents).map declaredName = ["login", "logout", "ping", "login"] ∧
      (∀ demand ∈ [pingDemand], demand.files = repeatedApis) ∧
      ∀ request : Request, request.RefersTo .api →
        exec (request.serve repeatedApis) s = (.error duplicate, s) := by
  intro s duplicate
  have hnames (path : String) (names : List String)
      (h : (Source.readFragments repeatedApis .api defaultDepth path).map
        (List.map fun f => f.head.name) = .ok names) := map_eq_ok.mp h
  obtain ⟨first, hfirst, hfirstNames⟩ :=
    hnames "dependencies/api/a.yaml" ["login", "logout"] (by decide +kernel)
  obtain ⟨second, hsecond, hsecondNames⟩ :=
    hnames "dependencies/api/b.yaml" ["ping", "login"] (by decide +kernel)
  let documents := [("dependencies/api/a.yaml", first), ("dependencies/api/b.yaml", second)]
  have hpaths : Source.definitionsIn repeatedApis "dependencies/api" =
      .ok ["dependencies/api/a.yaml", "dependencies/api/b.yaml"] := by decide +kernel
  have hloads : Loads repeatedApis .api defaultDepth "dependencies/api" documents := by
    refine ⟨hpaths, ?_⟩
    simp only [documents, List.forall_mem_cons, List.not_mem_nil, false_imp_iff, implies_true,
      and_true]
    exact ⟨hfirst, hsecond⟩
  have hfolder : Layout.standard.folder .api "dependencies" = "dependencies/api" := by decide +kernel
  have hloads' : Loads repeatedApis .api Layout.standard.depth
      (Layout.standard.folder .api "dependencies") documents := by
    rw [hfolder]
    exact hloads
  have hdeclared : (declarations documents).map declaredName = ["login", "logout", "ping", "login"] := by
    simp [documents, declarations, declaredName, Function.comp_def, hfirstNames, hsecondNames]
  have hsame : ∀ demand ∈ [pingDemand], demand.files = repeatedApis := by
    intro demand hdemand
    rw [List.mem_singleton.mp hdemand]
    rfl
  obtain ⟨-, -, hrepeated⟩ := declarations_unambiguous hloads' [pingDemand] hsame
  obtain ⟨_, _, _, _, _, _, _, -, -, -, hlookup, hreferences⟩ := hrepeated (by
    rw [hdeclared]
    decide)
  -- Which declarations these are shows in what one of the lookups gives.
  have herror : (exec (fragment repeatedApis .api "logout") s).1.map (fun _ => ()) =
      .error duplicate := by decide +kernel
  rw [hlookup "logout"] at herror
  refine ⟨documents, hloads, hdeclared, hsame, fun request hrequest => ?_⟩
  rw [hreferences request hrequest, Except.error.inj herror]

end Composition

end Casebook
