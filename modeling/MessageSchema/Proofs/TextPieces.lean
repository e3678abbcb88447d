import MessageSchema.Text.Ident

/-!
A text cut into runs of identifier characters and the characters between them. A cut is whole when
its runs are as long as they can be, and every text has exactly one whole cut.
-/

namespace MessageSchema.Text

set_option autoImplicit false

/-- A run of identifier characters, or a single character between runs. -/
inductive Piece where
  | run (word : List Char)
  | gap (c : Char)
  deriving DecidableEq

namespace Piece

def chars : Piece → List Char
  | run word => word
  | gap c => [c]

def run? : Piece → Option (List Char)
  | run word => some word
  | gap _ => none

def onRun (change : List Char → List Char) : Piece → Piece
  | run word => run (change word)
  | gap c => gap c

theorem run_on_run (change : List Char → List Char) (piece : Piece) :
    (piece.onRun change).run? = piece.run?.map change := by
  cases piece <;> rfl

end Piece

def joined (cut : List Piece) : List Char := cut.flatMap Piece.chars

def runs (cut : List Piece) : List (List Char) := cut.filterMap Piece.run?

theorem joined_cons (piece : Piece) (rest : List Piece) :
    joined (piece :: rest) = piece.chars ++ joined rest := rfl

theorem joined_append (front back : List Piece) :
    joined (front ++ back) = joined front ++ joined back := List.flatMap_append

theorem runs_map_on_run (change : List Char → List Char) (cut : List Piece) :
    runs (cut.map (Piece.onRun change)) = (runs cut).map change := by
  unfold runs
  rw [List.filterMap_map, List.map_filterMap]
  congr 1
  funext piece
  exact piece.run_on_run change

/-- Puts an identifier character in front of a cut, into the run with which it begins if it does. -/
def attach (c : Char) : List Piece → List Piece
  | .run word :: rest => .run (c :: word) :: rest
  | cut => .run [c] :: cut

/-- The runs and gaps of a text. -/
def pieces : List Char → List Piece
  | [] => []
  | c :: rest => if isIdentChar c then attach c (pieces rest) else .gap c :: pieces rest

theorem joined_attach (c : Char) (cut : List Piece) : joined (attach c cut) = c :: joined cut := by
  unfold attach
  split <;> rfl

theorem joined_pieces (text : List Char) : joined (pieces text) = text := by
  induction text with
  | nil => rfl
  | cons c rest ih =>
      unfold pieces
      split
      · rw [joined_attach, ih]
      · rw [joined_cons, ih]
        rfl

/-- Identifier characters, and at least one of them. -/
def IsRun (word : List Char) : Prop := word ≠ [] ∧ ∀ c ∈ word, isIdentChar c = true

theorem is_run_append {front word : List Char} (ident : ∀ c ∈ front, isIdentChar c = true)
    (run : IsRun word) : IsRun (front ++ word) := by
  refine ⟨List.append_ne_nil_of_right_ne_nil front run.1, ?_⟩
  intro c member
  rcases List.mem_append.1 member with before | inside
  · exact ident c before
  · exact run.2 c inside

/-- Every run ends where a gap or the end of the text stops it, and no gap could be part of a run. -/
def Whole : List Piece → Prop
  | [] => True
  | .gap c :: rest => isIdentChar c = false ∧ Whole rest
  | .run word :: rest => IsRun word ∧ (∀ next, rest.head? ≠ some (.run next)) ∧ Whole rest

theorem whole_attach {c : Char} (ident : isIdentChar c = true) {cut : List Piece}
    (whole : Whole cut) : Whole (attach c cut) := by
  have single : IsRun [c] := ⟨by simp, by simpa using ident⟩
  cases cut with
  | nil => exact ⟨single, by simp, whole⟩
  | cons piece rest =>
      cases piece with
      | gap d => exact ⟨single, by simp, whole⟩
      | run word =>
          obtain ⟨run, apart, others⟩ := whole
          exact ⟨is_run_append single.2 run, apart, others⟩

theorem whole_pieces (text : List Char) : Whole (pieces text) := by
  induction text with
  | nil => trivial
  | cons c rest ih =>
      unfold pieces
      split
      · next ident => exact whole_attach ident ih
      · next other => exact ⟨by simpa using other, ih⟩

theorem pieces_append_of_run {word : List Char} (run : IsRun word) {text : List Char}
    (apart : ∀ next, (pieces text).head? ≠ some (.run next)) :
    pieces (word ++ text) = .run word :: pieces text := by
  obtain ⟨filled, ident⟩ := run
  induction word with
  | nil => contradiction
  | cons c rest ih =>
      have first : isIdentChar c = true := ident c (by simp)
      rw [List.cons_append, pieces, if_pos first]
      cases rest with
      | nil =>
          cases cut : pieces text with
          | nil => simp [cut, attach]
          | cons piece more =>
              cases piece with
              | gap d => simp [cut, attach]
              -- A run behind this one would be part of it.
              | run next => exact absurd (by simp [cut]) (apart next)
      | cons d others =>
          rw [ih (by simp) fun e member => ident e (List.mem_cons_of_mem _ member)]
          rfl

theorem pieces_of_run {word : List Char} (run : IsRun word) : pieces word = [.run word] := by
  have alone : pieces (word ++ []) = .run word :: pieces [] :=
    pieces_append_of_run run (by simp [pieces])
  rwa [List.append_nil] at alone

theorem attach_append_gap (c d : Char) (cut more : List Piece) :
    attach c (cut ++ .gap d :: more) = attach c cut ++ .gap d :: more := by
  cases cut with
  | nil => rfl
  | cons piece rest => cases piece <;> rfl

/-- A text can be cut at every gap. -/
theorem pieces_append_gap {c : Char} (gap : isIdentChar c = false) (front back : List Char) :
    pieces (front ++ c :: back) = pieces front ++ .gap c :: pieces back := by
  induction front with
  | nil => simp [pieces, gap]
  | cons d rest ih =>
      rw [List.cons_append, pieces, pieces, ih]
      split
      · rw [attach_append_gap]
      · rfl

theorem pieces_joined {cut : List Piece} (whole : Whole cut) : pieces (joined cut) = cut := by
  induction cut with
  | nil => rfl
  | cons piece rest ih =>
      cases piece with
      | gap c =>
          have other : ¬isIdentChar c = true := by simp [whole.1]
          rw [joined_cons, Piece.chars, List.singleton_append, pieces, if_neg other, ih whole.2]
      | run word =>
          obtain ⟨run, apart, others⟩ := whole
          have inner := ih others
          rw [joined_cons, Piece.chars, pieces_append_of_run run (inner.symm ▸ apart), inner]

theorem whole_map_on_run {change : List Char → List Char}
    (kept : ∀ word, IsRun word → IsRun (change word)) {cut : List Piece} (whole : Whole cut) :
    Whole (cut.map (Piece.onRun change)) := by
  induction cut with
  | nil => trivial
  | cons piece rest ih =>
      cases piece with
      | gap c => exact ⟨whole.1, ih whole.2⟩
      | run word =>
          obtain ⟨run, apart, others⟩ := whole
          refine ⟨kept word run, ?_, ih others⟩
          intro next first
          rw [List.head?_map, Option.map_eq_some_iff] at first
          obtain ⟨piece, head, same⟩ := first
          cases piece with
          | gap c => simp [Piece.onRun] at same
          | run other => exact apart other head

end MessageSchema.Text
