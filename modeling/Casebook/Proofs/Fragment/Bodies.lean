import Casebook.Proofs.Computation
import Casebook.Proofs.Definition.BlockOrder
import Casebook.Proofs.Template.Cutting
import Casebook.Proofs.Value.Ordered

/-!
# Bodies of api fragments

The parameters of an api fragment are replaced in every text of its body, the names of its fields
included, and only then the fields are told apart and read. For a fragment that was loaded it does
not matter in which order this is done: none of the names that its body may have holds a dollar, so
they stay as they are, and with them all entries stay apart; and no value becomes null or ceases to
be null. So what the body declares is known before there is a reference.
-/

namespace Casebook

open Computation

/-! ## Replacing in the entries of an object -/

namespace Substitution

variable (mapping : Dict Substitution)

theorem mapTextsOfEntries_eq (done : Dict Value) (entries : List (String × Value)) :
    Value.mapTextsOfEntries (m := Id) (fun s => pure (.string (apply mapping s)))
        (fun key => pure (apply mapping key)) done entries =
      done.insertAll (entries.map fun entry =>
        (apply mapping entry.1, applyToValue mapping entry.2)) := by
  induction entries generalizing done with
  | nil => rfl
  | cons entry rest ih => exact ih _

theorem applyToValue_object (entries : List (String × Value)) :
    applyToValue mapping (.object entries) =
      .object (Dict.ofList (entries.map fun entry =>
        (apply mapping entry.1, applyToValue mapping entry.2))) :=
  congrArg Value.object (mapTextsOfEntries_eq mapping [] entries)

/-- Entries whose keys have no dollar stay where they are. -/
theorem applyToValue_object_of_keys {entries : Dict Value} (hordered : entries.Ordered)
    (hkeys : ∀ key ∈ entries.keys, '$' ∉ key.toList) :
    applyToValue mapping (.object entries) =
      .object (entries.mapValues (applyToValue mapping)) := by
  have hmap : (entries.map fun entry => (apply mapping entry.1, applyToValue mapping entry.2)) =
      entries.mapValues (applyToValue mapping) := by
    refine List.map_congr_left fun entry hentry => ?_
    rw [apply_of_not_mem mapping (hkeys entry.1 (List.mem_map_of_mem hentry))]
  have hstill : (entries.mapValues (applyToValue mapping)).Ordered :=
    List.Pairwise.map _ (fun _ _ hlt => hlt) hordered
  rw [applyToValue_object, hmap, hstill.ofList_eq]

/-- Nothing but null becomes null. -/
theorem applyToValue_eq_null_iff {v : Value} : applyToValue mapping v = .null ↔ v = .null := by
  cases v with
  | null => exact iff_of_true rfl rfl
  | _ => exact iff_of_false nofun nofun

end Substitution

/-! ## Declared fields -/

/-- A value, unless it is null. -/
def Value.unlessNull : Value → Option Value
  | .null => none
  | v => some v

theorem Value.unlessNull_of_ne {v : Value} (h : v ≠ .null) : v.unlessNull = some v := by
  cases v with
  | null => exact absurd rfl h
  | _ => rfl

namespace Fields

theorem present_cons_null (key : String) (rest : List (String × Value)) :
    present ((key, .null) :: rest) = present rest :=
  rfl

theorem present_cons_of_ne (key : String) {v : Value} (h : v ≠ .null)
    (rest : List (String × Value)) :
    present ((key, v) :: rest) = (key, v) :: present rest := by
  cases v with
  | null => exact absurd rfl h
  | _ => rfl

/-- What takes only null to null can be applied before or after the nulls are left out. -/
theorem present_mapValues {g : Value → Value} (hg : ∀ v, g v = .null ↔ v = .null)
    (entries : Dict Value) : present (entries.mapValues g) = (present entries).mapValues g := by
  induction entries with
  | nil => rfl
  | cons entry rest ih =>
    obtain ⟨key, v⟩ := entry
    show present ((key, g v) :: Dict.mapValues g rest) = _
    by_cases hv : v = .null
    · subst hv
      rw [(hg .null).mpr rfl, present_cons_null, present_cons_null, ih]
    · rw [present_cons_of_ne key (mt (hg v).mp hv), present_cons_of_ne key hv, ih]
      rfl

theorem get?_present {entries : Dict Value} (h : entries.keys.Nodup) (name : String) :
    (present entries).get? name = (entries.get? name).bind Value.unlessNull := by
  induction entries with
  | nil => rfl
  | cons entry rest ih =>
    obtain ⟨key, v⟩ := entry
    obtain ⟨hfresh, hrest⟩ := List.nodup_cons.mp h
    rw [Dict.get?_cons]
    by_cases hv : v = .null
    · subst hv
      rw [present_cons_null, ih hrest]
      split
      · next hkey =>
        -- No other entry has the key, so leaving out the null leaves nothing under it.
        rw [Dict.get?_eq_none_of_not_mem (hkey ▸ hfresh)]
        rfl
      · rfl
    · rw [present_cons_of_ne key hv, Dict.get?_cons, ih hrest]
      split
      · exact (Value.unlessNull_of_ne hv).symm
      · rfl

theorem of_ofBody?_object {names : List String} {entries : Dict Value} {fields : Fields}
    (h : ofBody? names true (.object entries) = some fields) :
    (∀ key ∈ entries.keys, key ∈ names) ∧ fields = present entries := by
  rw [ofBody?] at h
  split at h
  · cases h
  · next hall =>
    refine ⟨fun key hkey => ?_, (Option.some.inj h).symm⟩
    obtain ⟨entry, hentry, rfl⟩ := List.mem_map.mp hkey
    by_contra hname
    exact hall (by simpa using ⟨entry.1, ⟨entry.2, hentry⟩, hname⟩)

end Fields

namespace Fragment

/-- What the body of a fragment declares a field to be; a field that is null is not declared. -/
def declared? (f : Fragment) (name : String) : Option Value :=
  (f.body.field? name).bind Value.unlessNull

/-- A fragment whose body is that of an api block. -/
def IsApi (f : Fragment) : Prop :=
  ∃ entries : Dict Value, f.body = .object entries ∧ entries.Ordered ∧
    ∀ key ∈ entries.keys, key ∈ ExecutionFields.apiNames

end Fragment

/-! ## Reading fields -/

namespace ExecutionFields

/-- What a value is read as in two steps: as something of a certain shape, and that as what it
means. -/
def readAs {α β : Type} (location : String) (shape : Value → Option α) (read : α → Except Error β)
    (v : Value) : Except Error β :=
  match shape v with
  | some a => read a
  | none => .error (.malformed location Error.unreported)

/-- The actions that a value is a list of. -/
def actionsOf (location : String) (limit : ℕ) : Value → Except Error (List Action) :=
  readAs location Fields.texts? (actions location limit)

/-- The steps that a value is a list of. -/
def stepsOf (location : String) : Value → Except Error (List Step) :=
  readAs location Fields.mappings? (stepsFrom location 1)

theorem readAs_of_get {α β : Type} {location name : String} {shape : Value → Option α}
    {read : α → Except Error β} {fields : Fields} {written : Option α} {result : Option β}
    (hget : fields.get name shape = some written) (hread : written.mapM read = .ok result) :
    (fields.get? name).mapM (readAs location shape read) = .ok result := by
  unfold Fields.get at hget
  split at hget
  · next hnone =>
    obtain rfl := Option.some.inj hget
    rw [hnone]
    exact hread
  · next v hv =>
    obtain ⟨a, ha, rfl⟩ := Option.map_eq_some_iff.mp hget
    have hv' : readAs location shape read v = read a := by rw [readAs, ha]
    rw [hv, Option.mapM_some, hv']
    exact hread

/-- Each field is what the value under its name is read as, if there is one. -/
structure IsRead (location : String) (limit : ℕ) (field? : String → Option Value)
    (fields : ExecutionFields) : Prop where
  preCommand : (field? "pre_command").mapM (actionsOf location limit) = .ok fields.preCommand
  steps : (field? "steps").mapM (stepsOf location) = .ok fields.steps
  postCommand : (field? "post_command").mapM (actionsOf location limit) = .ok fields.postCommand
  verify : (field? "verify").mapM (actionsOf location limit) = .ok fields.verify

theorem isRead_of_ofApiBody {location : String} {limit : ℕ} {body : Value}
    {fields : ExecutionFields} (h : ofApiBody location limit body = .ok fields) :
    ∃ present : Fields, Fields.ofBody? apiNames true body = some present ∧
      IsRead location limit present.get? fields := by
  simp only [ofApiBody] at h
  split at h
  · next written hwritten =>
    obtain ⟨present, hpresent, hwritten⟩ := Option.bind_eq_some_iff.mp hwritten
    obtain ⟨_, -, hwritten⟩ := Option.bind_eq_some_iff.mp hwritten
    obtain ⟨pre, hpre, hwritten⟩ := Option.bind_eq_some_iff.mp hwritten
    obtain ⟨steps, hsteps, hwritten⟩ := Option.bind_eq_some_iff.mp hwritten
    obtain ⟨post, hpost, hwritten⟩ := Option.bind_eq_some_iff.mp hwritten
    obtain ⟨verify, hverify, hwritten⟩ := Option.bind_eq_some_iff.mp hwritten
    cases hwritten
    obtain ⟨pre', hpre', h⟩ := bind_eq_ok.mp h
    obtain ⟨steps', hsteps', h⟩ := bind_eq_ok.mp h
    obtain ⟨post', hpost', h⟩ := bind_eq_ok.mp h
    obtain ⟨verify', hverify', h⟩ := bind_eq_ok.mp h
    cases h
    exact ⟨present, hpresent, readAs_of_get hpre hpre', readAs_of_get hsteps hsteps',
      readAs_of_get hpost hpost', readAs_of_get hverify hverify'⟩
  · cases h

end ExecutionFields

/-! ## Loaded fragments -/

namespace Block

/-- Values of blocks are as ordered as those of the document. -/
theorem ordered_body_of_ofDocument {location : String} {v : Value} {blocks : List Block}
    (h : Block.ofDocument location v = .ok blocks) (hv : v.Ordered) :
    ∀ b ∈ blocks, b.body.Ordered := by
  intro b hb
  obtain ⟨-, rfl⟩ := ofDocument_eq_ok_iff.mp h
  cases hv with
  | array each =>
    cases each b.item (List.mem_map_of_mem hb) with
    | object _ each => exact each _ List.mem_cons_self

end Block

namespace Fragment

theorem isApi_of_apiOfBlock {path : String} {limit : ℕ} {b : Block} {f : Fragment}
    (h : Source.apiOfBlock path limit b = .ok f) (hb : b.body.Ordered) : f.IsApi := by
  unfold Source.apiOfBlock at h
  by_cases hkey : b.key = "api"
  swap
  · rw [if_pos hkey] at h
    cases h
  simp only [if_neg (not_not.mpr hkey)] at h
  split at h
  · cases h
  next text htext =>
  obtain ⟨head, -, h⟩ := bind_eq_ok.mp h
  obtain ⟨fields, hfields, h⟩ := bind_eq_ok.mp h
  cases h
  -- A field is found in the body only if that is an object.
  obtain ⟨v, hv, -⟩ := Option.bind_eq_some_iff.mp htext
  obtain ⟨present, hpresent, -⟩ := ExecutionFields.isRead_of_ofApiBody hfields
  obtain ⟨key, body⟩ := b
  cases body with
  | object entries =>
    cases hb with
    | object ordered _ => exact ⟨entries, rfl, ordered, (Fields.of_ofBody?_object hpresent).1⟩
  | _ => cases hv

/-- The fragments of a document are loaded with bodies that have no other fields than api blocks
have. -/
theorem isApi_of_readApis {files : Files} {limit : ℕ} {path : String} {fragments : List Fragment}
    (h : Source.readApis files limit path = .ok fragments) {f : Fragment} (hf : f ∈ fragments) :
    f.IsApi := by
  obtain ⟨v, hv, h⟩ := bind_eq_ok.mp h
  obtain ⟨blocks, hblocks, h⟩ := bind_eq_ok.mp h
  obtain ⟨b, hb, hblock⟩ := exists_of_mem_mapM h hf
  exact isApi_of_apiOfBlock hblock
    (Block.ordered_body_of_ofDocument hblocks (Source.ordered_of_readValue hv) b hb)

section IsApi

variable {f : Fragment}

/-- What fields there are after parameters were replaced, and what they hold, is what the body
declares. -/
theorem IsApi.isRead_of_applyToValue (hf : f.IsApi) {mapping : Dict Substitution} {location : String}
    {limit : ℕ} {fields : ExecutionFields}
    (h : ExecutionFields.ofApiBody location limit (Substitution.applyToValue mapping f.body) =
      .ok fields) :
    ExecutionFields.IsRead location limit
      (fun name => (f.declared? name).map (Substitution.applyToValue mapping)) fields := by
  obtain ⟨entries, hbody, hordered, hnames⟩ := hf
  have hdollar : ∀ name ∈ ExecutionFields.apiNames, '$' ∉ name.toList := by decide
  obtain ⟨present, hpresent, hread⟩ := ExecutionFields.isRead_of_ofApiBody h
  rw [hbody, Substitution.applyToValue_object_of_keys mapping hordered fun key hkey =>
    hdollar key (hnames key hkey)] at hpresent
  obtain ⟨-, rfl⟩ := Fields.of_ofBody?_object hpresent
  -- The names are as they were, so a field has the value of that name with its parameters replaced.
  have hfield (name : String) : (f.declared? name).map (Substitution.applyToValue mapping) =
      (Fields.present (entries.mapValues (Substitution.applyToValue mapping))).get? name := by
    rw [Fields.present_mapValues fun v => Substitution.applyToValue_eq_null_iff mapping,
      Dict.get?_mapValues, Fields.get?_present hordered.nodup_keys, declared?, hbody]
    rfl
  simp only [hfield]
  exact hread

end IsApi

end Fragment

end Casebook
