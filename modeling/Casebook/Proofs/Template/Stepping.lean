import Casebook.Proofs.Template.Cursor
import Casebook.Proofs.Template.Grammar

/-!
# Steps of a cursor

What the steps of a cursor do as long as it stands inside its text. `exec m c` is what a computation
comes to from a cursor, and `Stands text c s` says that the cursor is in the text and `s` is what is
left of it there. From that alone a look-ahead is one into `s`, what is cut out between two places
of a cursor is what it moved over, and a move over the front of `s` ends inside the text again.

`Reaches` is said of scans, which come to a value if they have a call for every character and one
more: words, blanks and keywords are those that are taken from the rest of the text.
-/

namespace Casebook.Template

open Text

namespace Cursor

/-! ## Computations -/

section Exec

variable {α β : Type}

/-- What a computation comes to from a cursor, and the cursor it leaves. -/
def exec (m : Moving α) (c : Cursor) : Except Halt (α × Cursor) :=
  m.run c

@[simp] theorem exec_pure (a : α) (c : Cursor) : exec (pure a) c = .ok (a, c) :=
  rfl

@[simp] theorem exec_get (c : Cursor) : exec get c = .ok (c, c) :=
  rfl

@[simp] theorem exec_modify (f : Cursor → Cursor) (c : Cursor) :
    exec (modify f : Moving Unit) c = .ok ((), f c) :=
  rfl

/-- A sequence goes on where its first part ended, unless that stopped early. -/
theorem exec_bind (m : Moving α) (f : α → Moving β) (c : Cursor) :
    exec (m >>= f) c =
      match exec m c with
      | .ok (a, c') => exec (f a) c'
      | .error h => .error h := by
  unfold exec
  rw [StateT.run_bind]
  rcases m.run c with h | ⟨a, c'⟩ <;> rfl

theorem exec_bind_ok {m : Moving α} {f : α → Moving β} {c c' : Cursor} {a : α}
    (h : exec m c = .ok (a, c')) : exec (m >>= f) c = exec (f a) c' := by
  rw [exec_bind, h]

theorem exec_bind_error {m : Moving α} {f : α → Moving β} {c : Cursor} {e : Halt}
    (h : exec m c = .error e) : exec (m >>= f) c = .error e := by
  rw [exec_bind, h]

theorem run_eq (m : Moving α) : run m = (exec m ⟨0, 0⟩).map Prod.fst :=
  rfl

end Exec

/-! ## Where a cursor stands -/

/-- A cursor stands in the text, in front of a rest of it. -/
structure Stands (text : String) (c : Cursor) (s : List Char) : Prop where
  le : c.position ≤ text.toList.length
  drop : text.toList.drop c.position = s

section Steps

variable {text : String} {c c' : Cursor} {s rest : List Char}

theorem stands_start (text : String) : Stands text ⟨0, 0⟩ text.toList :=
  ⟨Nat.zero_le _, rfl⟩

/-- What is behind a cursor and what is in front of it are the whole text. -/
theorem Stands.length_eq (h : Stands text c s) : c.position + s.length = text.toList.length := by
  have hle := h.le
  rw [← h.drop, List.length_drop]
  omega

theorem Stands.getElem? (h : Stands text c s) (n : ℕ) : text.toList[c.position + n]? = s[n]? := by
  rw [← h.drop, List.getElem?_drop]

/-- A move over the front of what is left. -/
theorem Stands.append {u : List Char} (h : Stands text c (u ++ s)) (depth : ℕ) :
    Stands text ⟨c.position + u.length, depth⟩ s := by
  have hlength := h.length_eq
  rw [List.length_append] at hlength
  refine ⟨?_, ?_⟩
  · show c.position + u.length ≤ _
    omega
  · rw [← List.drop_drop, h.drop, List.drop_left]

theorem Stands.next {x : Char} (h : Stands text c (x :: s)) :
    Stands text ⟨c.position + 1, c.depth⟩ s :=
  h.append (u := [x]) c.depth

/-- Where a cursor stands does not depend on what it counts. -/
theorem Stands.setDepth (h : Stands text c s) (depth : ℕ) : Stands text { c with depth } s :=
  ⟨h.le, h.drop⟩

/-! ## Steps -/

@[simp] theorem exec_advance (n : ℕ) (c : Cursor) :
    exec (advance n) c = .ok ((), ⟨c.position + n, c.depth⟩) :=
  rfl

@[simp] theorem exec_peek (h : Stands text c s) (n : ℕ) :
    exec (peek text n) c = .ok (s[n]?, c) := by
  rw [peek, exec_bind_ok (exec_get c), exec_pure, h.getElem?]

theorem exec_charAt (h : Stands text c s) {n : ℕ} {x : Char} (hx : s[n]? = some x) :
    exec (charAt text (c.position + n)) c = .ok (x, c) := by
  rw [charAt, h.getElem?, hx]
  rfl

/-- There is no character behind the last one. -/
example : exec (charAt "ab" 2) ⟨1, 0⟩ = .error (.slip .index) := rfl

/-- What lies between two places of a cursor is what it took on its way, wherever it is now. -/
theorem exec_cut (h : Stands text c s) (h' : Stands text c' rest) (hle : rest.length ≤ s.length)
    (now : Cursor) :
    exec (cut text c.position c'.position) now = .ok (taken s rest, now) := by
  have hlength := h.length_eq
  have hlength' := h'.length_eq
  have hwithin : c.position ≤ c'.position ∧ c'.position ≤ text.toList.length := by omega
  have hcount : c'.position - c.position = s.length - rest.length := by omega
  rw [cut, if_pos hwithin, h.drop, hcount, exec_pure, taken]

/-- What ends in front of its beginning cannot be cut out. -/
example : exec (cut "ab" 2 1) ⟨0, 0⟩ = .error (.slip .range) := rfl

theorem exec_eat_cons {x : Char} (h : Stands text c (x :: s)) :
    exec (eat text x) c = .ok (true, ⟨c.position + 1, c.depth⟩) := by
  rw [eat, exec_bind_ok (exec_peek h 0), if_pos List.getElem?_cons_zero]
  rfl

theorem exec_eat_of_ne {x : Char} (h : Stands text c s) (hx : ∀ after, s ≠ x :: after) :
    exec (eat text x) c = .ok (false, c) := by
  have hpeek : s[0]? ≠ some x := by
    rw [← List.head?_eq_getElem?, ne_eq, List.head?_eq_some_iff]
    exact fun hcons => hcons.elim hx
  rw [eat, exec_bind_ok (exec_peek h 0), if_neg hpeek, exec_pure]

section Depth

variable {limit position depth : ℕ}

theorem exec_enter_of_lt (h : depth < limit) :
    exec (enter limit) ⟨position, depth⟩ = .ok ((), ⟨position, depth + 1⟩) := by
  rw [enter, exec_bind_ok (exec_modify _ _), exec_bind_ok (exec_get _)]
  exact congrArg (exec · _) (if_neg (Nat.not_lt_of_le h))

theorem exec_enter_of_le (h : limit ≤ depth) :
    exec (enter limit) ⟨position, depth⟩ = .error (.error (.recursionLimit limit)) := by
  rw [enter, exec_bind_ok (exec_modify _ _), exec_bind_ok (exec_get _)]
  exact congrArg (exec · _) (if_pos (Nat.lt_succ_of_le h))

/-- A placeholder that was entered can be left. -/
theorem exec_leave : exec leave ⟨position, depth + 1⟩ = .ok ((), ⟨position, depth⟩) :=
  rfl

end Depth

/-! ## Scans -/

/-- A computation comes to a value in front of a rest, in as many placeholders as before. -/
def Reaches {α : Type} (text : String) (m : Moving α) (c : Cursor) (a : α) (rest : List Char) :
    Prop :=
  ∃ c', exec m c = .ok (a, c') ∧ Stands text c' rest ∧ c'.depth = c.depth

variable {calls : ℕ}

/-- All characters of a kind are passed, as far as there is text. The induction is on the rest. -/
theorem reaches_skipWhile (p : Char → Bool) (h : Stands text c s) (hcalls : s.length < calls) :
    Reaches text (skipWhile text p calls) c () (s.dropWhile p) := by
  induction s generalizing c calls with
  | nil =>
    obtain _ | calls := calls
    · omega
    refine ⟨c, ?_, h, rfl⟩
    rw [skipWhile, exec_bind_ok (exec_peek h 0)]
    rfl
  | cons x s ih =>
    obtain _ | calls := calls
    · omega
    rw [Reaches, skipWhile, exec_bind_ok (exec_peek h 0)]
    by_cases hx : p x = true
    · simp only [List.getElem?_cons_zero, Option.any_some, hx, if_true,
        exec_bind_ok (exec_advance 1 c), List.dropWhile_cons_of_pos]
      exact ih h.next (Nat.lt_of_succ_lt_succ hcalls)
    · simp only [List.getElem?_cons_zero, Option.any_some, hx, Bool.false_eq_true, if_false,
        List.dropWhile_cons_of_neg, not_false_eq_true]
      exact ⟨c, rfl, h, rfl⟩

theorem reaches_skipBlanks (h : Stands text c s) (hcalls : s.length < calls) :
    Reaches text (skipWhile text isBlank calls) c () (skipBlanks s) :=
  reaches_skipWhile isBlank h hcalls

theorem reaches_word (h : Stands text c s) (hcalls : s.length < calls) :
    Reaches text (word text calls) c (Text.word s).1 (Text.word s).2 := by
  obtain ⟨c', hskip, hstands, hdepth⟩ := reaches_skipWhile isWord h hcalls
  change Stands text c' (Text.word s).2 at hstands
  refine ⟨c', ?_, hstands, hdepth⟩
  have htaken : taken s (Text.word s).2 = (Text.word s).1 :=
    calc taken s (Text.word s).2 = taken ((Text.word s).1 ++ (Text.word s).2) (Text.word s).2 := by
          rw [word_append]
      _ = (Text.word s).1 := taken_append _ _
  have hcut := exec_cut h hstands (length_word_le s) c'
  rw [htaken] at hcut
  rw [word, exec_bind_ok (exec_get c), exec_bind_ok hskip, exec_bind_ok (exec_get c')]
  exact hcut

/-- A word without the equals sign of a keyword is gone back over. -/
theorem reaches_keyword (h : Stands text c s) (hcalls : s.length < calls) :
    Reaches text (keyword text calls) c (Template.keyword s).1 (Template.keyword s).2 := by
  obtain ⟨c₁, hword, hstands₁, hdepth₁⟩ := reaches_word h hcalls
  obtain ⟨c₂, hskip, hstands₂, hdepth₂⟩ :=
    reaches_skipBlanks hstands₁ (Nat.lt_of_le_of_lt (length_word_le s) hcalls)
  have hback {now : Cursor} (hdepth : now.depth = c.depth) :
      ∃ c', exec (do moveTo c.position; return (none : Option String)) now =
        .ok (none, c') ∧ Stands text c' s ∧ c'.depth = c.depth :=
    ⟨⟨c.position, now.depth⟩, rfl, h.setDepth now.depth, hdepth⟩
  rw [Reaches, keyword, exec_bind_ok (exec_get c), exec_bind_ok hword]
  cases hkeyword : keyword? s with
  | none =>
    simp only [Template.keyword, hkeyword]
    split
    · exact hback hdepth₁
    next hname =>
    rw [exec_bind_ok hskip, exec_bind_ok (exec_peek hstands₂ 0),
      exec_bind_ok (exec_peek hstands₂ 1)]
    split
    · next hequals =>
      -- Then there would have been a keyword.
      obtain ⟨hfirst, hsecond⟩ := hequals
      rw [← List.head?_eq_getElem?, List.head?_eq_some_iff] at hfirst
      obtain ⟨after, hafter⟩ := hfirst
      rw [hafter, List.getElem?_cons_succ, ← List.head?_eq_getElem?] at hsecond
      have hsome := keyword?_eq_some_iff.mpr
        ⟨_, _, rfl, hname ∘ List.isEmpty_iff.mpr, hafter, hsecond, rfl⟩
      rw [hkeyword] at hsome
      cases hsome
    · exact hback (hdepth₂.trans hdepth₁)
  | some r =>
    obtain ⟨name, after⟩ := r
    obtain ⟨w, mid, hw, hne, hequals, hsingle, rfl⟩ := keyword?_eq_some_iff.mp hkeyword
    rw [hw, hequals] at hstands₂
    simp only [Template.keyword, hkeyword, hw]
    rw [if_neg (by simpa using hne), exec_bind_ok hskip, exec_bind_ok (exec_peek hstands₂ 0),
      exec_bind_ok (exec_peek hstands₂ 1),
      if_pos ⟨rfl, by simpa [List.head?_eq_getElem?] using hsingle⟩]
    exact ⟨⟨c₂.position + 1, c₂.depth⟩, rfl, hstands₂.next, hdepth₂.trans hdepth₁⟩

end Steps

end Cursor

end Casebook.Template
