import Casebook.Run.Trace
import Mathlib.Data.List.Infix

/-!
# What a recorder keeps of what it is told

A recorder is told when cases start, what happens in them, and when they stop, in any order, with
starts and stops left out or doubled. What it ought to keep can be read off all that it was told
(`Notice.recordsOf`): wherever a case starts there is a record of it, with the entries up to the
next start or stop. Main statement: the recorder keeps just that, and of these records only the last
may be open still.
-/

namespace Casebook

/-- What a recorder is told. -/
inductive Notice where
  | start (module case : String) (responsible tester : Option String)
  | entry (level : TraceLevel) (message : String)
  | stop

namespace Recorder

/-- The recorder once it was told something. -/
def tell (r : Recorder) : Notice → Recorder
  | .start module case responsible tester => r.start module case responsible tester
  | .entry level message => r.add level message
  | .stop => r.stop

/-- The recorder once it was told some things, one after another. -/
def tellAll (r : Recorder) (notices : List Notice) : Recorder :=
  notices.foldl tell r

end Recorder

namespace Notice

/-! ## What ought to be kept -/

/-- The entry that a notice is, if it is one. -/
def asEntry : Notice → Option TraceEntry
  | entry level message => some ⟨level, message⟩
  | start _ _ _ _ => none
  | stop => none

/-- Whether a notice is an entry. -/
def isEntry (n : Notice) : Bool :=
  n.asEntry.isSome

/-- Whether a notice is the start of a case. -/
def isStart : Notice → Bool
  | start _ _ _ _ => true
  | entry _ _ => false
  | stop => false

/-- The entries in front of the next start or stop. -/
def entriesOf (notices : List Notice) : List TraceEntry :=
  (notices.takeWhile isEntry).filterMap asEntry

/-- The record of the case that starts where notices begin, if one does. -/
def recordAt? : List Notice → Option CaseTrace
  | start module case responsible tester :: rest =>
    some ⟨module, case, responsible, tester, entriesOf rest⟩
  | _ => none

/-- The records of all cases, in the order in which they start. -/
def recordsOf (notices : List Notice) : List CaseTrace :=
  notices.tails.filterMap recordAt?

/-- Whether a case is open in the end: the last notice that is no entry is the start of one. -/
def endsOpen (notices : List Notice) : Bool :=
  (notices.filter fun n => !n.isEntry).getLast?.any isStart

theorem recordsOf_cons (n : Notice) (rest : List Notice) :
    recordsOf (n :: rest) = (recordAt? (n :: rest)).toList ++ recordsOf rest := by
  rw [recordsOf, List.tails_cons, List.filterMap_cons]
  cases recordAt? (n :: rest) <;> rfl

theorem entriesOf_entry (level : TraceLevel) (message : String) (rest : List Notice) :
    entriesOf (entry level message :: rest) = ⟨level, message⟩ :: entriesOf rest := by
  rw [entriesOf, List.takeWhile_cons_of_pos rfl]
  rfl

/-- A start or stop ends the entries of the case in front of it. -/
theorem entriesOf_cons_of_not_isEntry {n : Notice} (h : n.isEntry = false) (rest : List Notice) :
    entriesOf (n :: rest) = [] := by
  rw [entriesOf, List.takeWhile_cons_of_neg (by simp [h])]
  rfl

/-- What is told last and is no entry decides whether a case is open. -/
theorem getLast?_filter_cons (n : Notice) (rest : List Notice) :
    ((n :: rest).filter fun n => !n.isEntry).getLast? =
      (rest.filter fun n => !n.isEntry).getLast?.or (if n.isEntry then none else some n) := by
  rw [List.filter_cons]
  cases n.isEntry with
  | true => simp
  | false =>
    simp only [Bool.not_false, if_true, Bool.false_eq_true, if_false, List.getLast?_cons]
    cases (rest.filter fun n => !n.isEntry).getLast? <;> rfl

end Notice

namespace Recorder

open Notice

/-! ## What is kept -/

/-- The open record, with the entries that are yet to be told of it. -/
def completed (r : Recorder) (notices : List Notice) : List CaseTrace :=
  r.current.toList.map fun t => { t with entries := t.entries ++ entriesOf notices }

theorem completed_of_entriesOf_eq_nil {notices : List Notice} (h : entriesOf notices = [])
    (r : Recorder) : r.completed notices = r.current.toList := by
  rw [completed, h]
  cases r.current with
  | none => rfl
  | some t => simp

theorem completed_add (r : Recorder) (level : TraceLevel) (message : String)
    (rest : List Notice) :
    (r.add level message).completed rest = r.completed (.entry level message :: rest) := by
  cases hcurrent : r.current with
  | none => simp [completed, add, hcurrent]
  | some t => simp [completed, add, hcurrent, entriesOf_entry]

/-- A recorder that is told more has the records that it had, the open one completed, and those of
the cases that start then. The induction is on what it is told. -/
theorem allRecords_tellAll (r : Recorder) (notices : List Notice) :
    (r.tellAll notices).allRecords = r.finished ++ r.completed notices ++ recordsOf notices := by
  induction notices generalizing r with
  | nil =>
    rw [completed_of_entriesOf_eq_nil rfl]
    exact (List.append_nil _).symm
  | cons n rest ih =>
    have hcons : (r.tellAll (n :: rest)).allRecords =
        (r.tell n).finished ++ (r.tell n).completed rest ++ recordsOf rest := ih (r.tell n)
    rw [hcons, recordsOf_cons]
    cases n with
    | start module case responsible tester =>
      rw [completed_of_entriesOf_eq_nil (entriesOf_cons_of_not_isEntry rfl rest) r]
      simp [tell, start, stop, completed, recordAt?]
    | entry level message =>
      show r.finished ++ (r.add level message).completed rest ++ recordsOf rest = _
      rw [completed_add]
      rfl
    | stop =>
      rw [completed_of_entriesOf_eq_nil (entriesOf_cons_of_not_isEntry rfl rest) r]
      simp [tell, stop, completed, recordAt?]

/-- A record is open after what was told last and is no entry, if that was a start. -/
theorem isSome_current_tellAll (r : Recorder) (notices : List Notice) :
    (r.tellAll notices).current.isSome =
      ((notices.filter fun n => !n.isEntry).getLast?.map isStart).getD r.current.isSome := by
  induction notices generalizing r with
  | nil => rfl
  | cons n rest ih =>
    have hcons : (r.tellAll (n :: rest)).current.isSome =
        ((rest.filter fun n => !n.isEntry).getLast?.map isStart).getD (r.tell n).current.isSome :=
      ih (r.tell n)
    rw [hcons, getLast?_filter_cons]
    cases (rest.filter fun n => !n.isEntry).getLast? with
    | some last => rfl
    | none =>
      cases n with
      | start module case responsible tester => rfl
      | entry level message => exact Option.isSome_map
      | stop => rfl

theorem isSome_current_tellAll_empty (notices : List Notice) :
    (empty.tellAll notices).current.isSome = endsOpen notices := by
  rw [isSome_current_tellAll, endsOpen]
  cases (notices.filter fun n => !n.isEntry).getLast? <;> rfl

theorem tellAll_append (r : Recorder) (notices more : List Notice) :
    r.tellAll (notices ++ more) = (r.tellAll notices).tellAll more :=
  List.foldl_append

/-- An entry that is told while no case is open is dropped. -/
theorem add_of_not_isSome {r : Recorder} (h : r.current.isSome = false) (level : TraceLevel)
    (message : String) : r.add level message = r := by
  obtain ⟨finished, current⟩ := r
  rw [Option.isSome_eq_false_iff, Option.isNone_iff_eq_none] at h
  cases h
  rfl

/-- The closed records are all records but the open one, which is the last. -/
theorem records_eq (r : Recorder) :
    r.records = if r.current.isSome then r.allRecords.dropLast else r.allRecords := by
  obtain ⟨finished, _ | t⟩ := r
  · exact (List.append_nil finished).symm
  · exact List.dropLast_concat.symm

/-- A recorder loses, doubles and misplaces nothing. Whatever it is told, it has one record for each
start, in order, with what it was told of the case there and the entries up to the next start or
stop; an entry that it is told while no case is open makes no difference at all; and the closed
records are the same but for the last, if its case is still open. -/
theorem records_tellAll (notices : List Notice) :
    (empty.tellAll notices).allRecords = recordsOf notices ∧
      (∀ before level message after, notices = before ++ .entry level message :: after →
        endsOpen before = false → empty.tellAll notices = empty.tellAll (before ++ after)) ∧
      (empty.tellAll notices).records =
        if endsOpen notices then (recordsOf notices).dropLast else recordsOf notices := by
  have hall : (empty.tellAll notices).allRecords = recordsOf notices :=
    allRecords_tellAll empty notices
  refine ⟨hall, ?_, ?_⟩
  · rintro before level message after rfl hclosed
    rw [← isSome_current_tellAll_empty] at hclosed
    rw [tellAll_append, tellAll_append]
    show ((empty.tellAll before).add level message).tellAll after = _
    rw [add_of_not_isSome hclosed]
  · rw [records_eq, hall, isSome_current_tellAll_empty]

/-- Three cases, the first of which is never stopped and the last not yet, with entries between. -/
def interrupted : List Notice :=
  [ .entry .normal "early", .start "shop" "A" none none, .entry .step "a",
    .start "shop" "B" (some "ops") none, .entry .error "b", .stop, .stop, .entry .normal "late",
    .start "shop" "C" none none, .entry .step "c" ]

/-- The second start closes the first case, the entry behind the stops is dropped, and the third
case is not among the closed ones. -/
theorem records_tellAll_interrupted :
    let a : CaseTrace := ⟨"shop", "A", none, none, [⟨.step, "a"⟩]⟩
    let b : CaseTrace := ⟨"shop", "B", some "ops", none, [⟨.error, "b"⟩]⟩
    let c : CaseTrace := ⟨"shop", "C", none, none, [⟨.step, "c"⟩]⟩
    endsOpen (interrupted.take 7) = false ∧
      (empty.tellAll interrupted).allRecords = [a, b, c] ∧
      empty.tellAll interrupted = empty.tellAll (interrupted.take 7 ++ interrupted.drop 8) ∧
      (empty.tellAll interrupted).records = [a, b] := by
  obtain ⟨hall, hdropped, hclosed⟩ := records_tellAll interrupted
  have hfree : endsOpen (interrupted.take 7) = false := by decide
  exact ⟨hfree, hall.trans (by decide), hdropped _ _ _ _ rfl hfree, hclosed.trans (by decide)⟩

end Recorder

end Casebook
