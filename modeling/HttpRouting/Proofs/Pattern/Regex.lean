import HttpRouting.Pattern.Regex

/-!
# What an expression captures, one item at a time

The captures of all endings of a text are found together. Taken from the front they follow the
items: a literal is dropped (`head_behindText`), and a capture takes the longest admitted text that
a match of the rest follows (`capture?_run_cons`, `capture?_rest`, `value?_cons`).
-/

namespace HttpRouting.Regex

theorem behindText_cons {α : Type} (same : Char → Char → Bool) (a : Char) (s t : Text)
    (next : List (Option α)) :
    behindText same (a :: s) t next =
      behind (same a) (fun _ => id) t (behindText same s t next) := rfl

theorem behindText_later {α : Type} (same : Char → Char → Bool) (s : Text) (c : Char) (t : Text)
    (here : Option α) (later : List (Option α)) :
    ∃ x, behindText same s (c :: t) (here :: later) = x :: behindText same s t later := by
  induction s with
  | nil => exact ⟨here, rfl⟩
  | cons a s ih =>
    obtain ⟨x, hx⟩ := ih
    simp only [behindText_cons, hx, behind]
    exact ⟨_, rfl⟩

/-- The captures of an ending do not depend on what stands before it. -/
theorem captures_cons (r : Regex) (c : Char) (t : Text) :
    ∃ x, captures r (c :: t) = x :: captures r t := by
  induction r with
  | nil => exact ⟨none, rfl⟩
  | cons item r ih =>
    obtain ⟨x, hx⟩ := ih
    cases item with
    | slash | folded s | exact s => simp only [captures, hx]; exact behindText_later _ _ c t x _
    | run type => simp only [captures, hx, longest, behind]; exact ⟨_, rfl⟩
    | rest => simp only [captures, hx, longest, List.map_cons]; exact ⟨_, rfl⟩

theorem head_behindText (same : Char → Char → Bool) (s : Text) (r : Regex) (t : Text) :
    (behindText same s t (captures r t)).head?.join
      = (Text.dropStart? same s t).bind fun t => (captures r t).head?.join := by
  induction s generalizing t with
  | nil => rfl
  | cons a s ih =>
    cases t with
    | nil => rfl
    | cons c t =>
      obtain ⟨x, hx⟩ := captures_cons r c t
      obtain ⟨y, hy⟩ := behindText_later same s c t x (captures r t)
      rw [hx, behindText_cons, hy, behind, List.head?_cons, Option.join_some, Option.map_id,
        Text.dropStart?]
      split
      · exact ih t
      · rfl

/-- The first of the answers for all endings is the answer for the whole text. -/
theorem head_captures (r : Regex) (t : Text) : (captures r t).head?.join = capture? r t := by
  induction r generalizing t with
  | nil => rfl
  | cons item r ih =>
    cases item with
    | slash | folded s | exact s =>
      simp only [captures, head_behindText, ih, capture?]
    | run type => rfl
    | rest => rfl

theorem capture?_nil (t : Text) : capture? [] t = if t = [] then some [] else none := by
  cases t <;> simp [capture?, captures]

theorem capture?_run_nil (type : ParamType) (r : Regex) : capture? (.run type :: r) [] = none := by
  simp [capture?, captures, behind]

theorem capture?_run_cons (type : ParamType) (r : Regex) (c : Char) (t : Text) :
    capture? (.run type :: r) (c :: t) =
      if type.admits c then
        (value? type.admits r t).map fun (value, values) => (c :: value) :: values
      else none := by
  obtain ⟨x, hx⟩ := captures_cons r c t
  simp [capture?, captures, hx, longest, behind, value?]

theorem capture?_rest (r : Regex) (t : Text) :
    capture? (.rest :: r) t =
      (value? (· ≠ '\n') r t).map fun (value, values) => value :: values := by
  simp only [capture?, captures, value?]
  cases longest (· ≠ '\n') t (captures r t) <;> rfl

theorem value?_nil (admits : Char → Bool) (r : Regex) :
    value? admits r [] = (capture? r []).map fun values => ([], values) := by
  rw [← head_captures]
  cases h : captures r [] <;> simp [value?, longest, h]

theorem value?_cons (admits : Char → Bool) (r : Regex) (c : Char) (t : Text) :
    value? admits r (c :: t) =
      (if admits c then (value? admits r t).map fun (value, values) => (c :: value, values)
        else none).or ((capture? r (c :: t)).map fun values => ([], values)) := by
  obtain ⟨x, hx⟩ := captures_cons r c t
  rw [← head_captures]
  by_cases h : admits c <;> simp [value?, longest, hx, h]

end HttpRouting.Regex
