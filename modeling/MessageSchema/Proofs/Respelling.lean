import MessageSchema.Proofs.TextPieces
import MessageSchema.Yaml.Cursor

/-!
Texts under a change of words. Every run of identifier characters is replaced by another one and all
other characters stay, so whatever looks at these other characters alone finds the same in both texts:
the first character that it asks for, and the stretch up to a character at which it stops.
-/

namespace MessageSchema.Text

set_option autoImplicit false

/-- A change of words. Words stay words and become no shorter, and a digit that stands alone is left
as it is. -/
structure Respelling where
  word : List Char → List Char
  isRun_word : ∀ {run : List Char}, IsRun run → IsRun (word run)
  length_le : ∀ {run : List Char}, IsRun run → run.length ≤ (word run).length
  word_digit : ∀ {c : Char}, c.isDigit = true → word [c] = [c]

/-- A text that no word goes on into. -/
def Fresh (text : List Char) : Prop := ∀ c ∈ text.head?, isIdentChar c = false

/-- Two texts that do not share a word where they meet. -/
def Apart (front back : List Char) : Prop :=
  (∀ c ∈ front.getLast?, isIdentChar c = false) ∨ Fresh back

theorem fresh_nil : Fresh [] := by simp [Fresh]

theorem fresh_cons {c : Char} (other : isIdentChar c = false) (rest : List Char) :
    Fresh (c :: rest) := by
  simpa [Fresh] using other

theorem Fresh.of_append {front back : List Char} (fresh : Fresh (front ++ back)) : Fresh front := by
  intro c first
  exact fresh c (by rw [List.head?_append, Option.mem_def.1 first]; rfl)

theorem Apart.of_append {front middle back : List Char} (apart : Apart front (middle ++ back)) :
    Apart front middle :=
  apart.imp_right Fresh.of_append

theorem fresh_drop_while (text : List Char) : Fresh (text.dropWhile isIdentChar) := by
  intro c first
  have := List.head?_dropWhile_not isIdentChar text
  rw [first] at this
  simpa using this

/-- A text is nothing, or another character and a text, or a word and a text without it. -/
theorem text_induction {motive : List Char → Prop} (nil : motive [])
    (gap : ∀ c rest, isIdentChar c = false → motive rest → motive (c :: rest))
    (run : ∀ word rest, IsRun word → Fresh rest → motive rest → motive (word ++ rest))
    (text : List Char) : motive text := by
  induction length : text.length using Nat.strongRecOn generalizing text with
  | _ n ih =>
      cases text with
      | nil => exact nil
      | cons c rest =>
          cases ident : isIdentChar c with
          | false => exact gap c rest ident (ih rest.length (by simp [← length]) rest rfl)
          | true =>
              let word := (c :: rest).takeWhile isIdentChar
              let others := (c :: rest).dropWhile isIdentChar
              have parts : c :: rest = word ++ others := List.takeWhile_append_dropWhile.symm
              have begun : word = c :: rest.takeWhile isIdentChar :=
                List.takeWhile_cons_of_pos ident
              have inside : ∀ d ∈ word, isIdentChar d = true :=
                List.all_eq_true.1 List.all_takeWhile
              have shorter : others.length < n := by
                have total := congrArg List.length parts
                rw [List.length_append, begun, length] at total
                simp only [List.length_cons] at total
                omega
              rw [parts]
              exact run word others ⟨by simp [begun], inside⟩ (fresh_drop_while _)
                (ih others.length shorter others rfl)

theorem text_cases (text : List Char) :
    text = [] ∨ (∃ c rest, text = c :: rest ∧ isIdentChar c = false) ∨
      ∃ word rest, text = word ++ rest ∧ IsRun word ∧ Fresh rest := by
  induction text using text_induction with
  | nil => exact Or.inl rfl
  | gap c rest other _ => exact Or.inr (Or.inl ⟨c, rest, rfl, other⟩)
  | run word rest run fresh _ => exact Or.inr (Or.inr ⟨word, rest, rfl, run, fresh⟩)

namespace Respelling

variable (r : Respelling)

def text (text : List Char) : List Char := joined ((pieces text).map (Piece.onRun r.word))

@[simp] theorem text_nil : r.text [] = [] := rfl

theorem text_gap {c : Char} (other : isIdentChar c = false) (rest : List Char) :
    r.text (c :: rest) = c :: r.text rest := by
  simp [text, pieces, other, Piece.onRun, joined_cons, Piece.chars]

theorem head_pieces_of_fresh {rest : List Char} (fresh : Fresh rest) (next : List Char) :
    (pieces rest).head? ≠ some (.run next) := by
  cases rest with
  | nil => simp [pieces]
  | cons c rest =>
      have other : isIdentChar c = false := fresh c rfl
      simp [pieces, other]

theorem text_run {word rest : List Char} (run : IsRun word) (fresh : Fresh rest) :
    r.text (word ++ rest) = r.word word ++ r.text rest := by
  rw [text, pieces_append_of_run run (head_pieces_of_fresh fresh)]
  rfl

theorem text_of_run {word : List Char} (run : IsRun word) : r.text word = r.word word := by
  have alone := r.text_run run fresh_nil
  rwa [List.append_nil, text_nil, List.append_nil] at alone

theorem text_append {front back : List Char} (apart : Apart front back) :
    r.text (front ++ back) = r.text front ++ r.text back := by
  induction front using text_induction with
  | nil => rfl
  | gap c rest other ih =>
      have inner : Apart rest back := by
        rcases apart with last | fresh
        · cases rest with
          | nil => exact Or.inl (by simp)
          | cons d more => exact Or.inl (by simpa [List.getLast?_cons_cons] using last)
        · exact Or.inr fresh
      rw [List.cons_append, r.text_gap other, ih inner, r.text_gap other, List.cons_append]
  | run word rest run fresh ih =>
      cases rest with
      | nil =>
          have next : Fresh back := by
            rcases apart with last | fresh
            · obtain ⟨filled, ident⟩ := run
              have final := last (word.getLast filled) (by simp [List.getLast?_eq_some_getLast filled])
              rw [ident _ (List.getLast_mem filled)] at final
              cases final
            · exact fresh
          rw [List.append_nil, r.text_run run next, r.text_of_run run]
      | cons d more =>
          have inner : Apart (d :: more) back := by
            rcases apart with last | fresh
            · exact Or.inl (by simpa [List.getLast?_append] using last)
            · exact Or.inr fresh
          have longer : Fresh ((d :: more) ++ back) := by simpa [Fresh] using fresh
          rw [List.append_assoc, r.text_run run longer, ih inner, r.text_run run fresh,
            List.append_assoc]

/-- A text without identifier characters stays as it is. -/
theorem text_of_other {text : List Char} (others : ∀ c ∈ text, isIdentChar c = false) :
    r.text text = text := by
  induction text with
  | nil => rfl
  | cons c rest ih =>
      rw [r.text_gap (others c (by simp)), ih fun d member => others d (by simp [member])]

theorem apart_of_other {front back : List Char} (others : ∀ c ∈ front, isIdentChar c = false) :
    Apart front back := Or.inl fun c last => others c (List.mem_of_getLast? last)

theorem text_append_of_other {front : List Char} (others : ∀ c ∈ front, isIdentChar c = false)
    (back : List Char) : r.text (front ++ back) = front ++ r.text back := by
  rw [r.text_append (apart_of_other others), r.text_of_other others]

theorem text_between {middle : List Char} (filled : middle ≠ [])
    (others : ∀ c ∈ middle, isIdentChar c = false) (front back : List Char) :
    r.text (front ++ middle ++ back) = r.text front ++ middle ++ r.text back := by
  have behind : Apart front (middle ++ back) := by
    cases middle with
    | nil => contradiction
    | cons c rest => exact Or.inr (fresh_cons (others c (by simp)) _)
  rw [List.append_assoc, r.text_append behind, r.text_append_of_other others, List.append_assoc]

theorem length_le_text (text : List Char) : text.length ≤ (r.text text).length := by
  induction text using text_induction with
  | nil => exact Nat.le_refl _
  | gap c rest other ih =>
      rw [r.text_gap other, List.length_cons, List.length_cons]
      omega
  | run word rest run fresh ih =>
      rw [r.text_run run fresh, List.length_append, List.length_append]
      have := r.length_le run
      omega

theorem text_eq_nil_iff {text : List Char} : r.text text = [] ↔ text = [] := by
  constructor
  · intro empty
    have short := r.length_le_text text
    rw [empty, List.length_nil] at short
    exact List.eq_nil_of_length_eq_zero (by omega)
  · rintro rfl
    rfl

theorem forall_mem_text {p : Char → Prop} (ident : ∀ c, isIdentChar c = true → p c)
    {text : List Char} (all : ∀ c ∈ text, p c) : ∀ c ∈ r.text text, p c := by
  induction text using text_induction with
  | nil => simp
  | gap c rest other ih =>
      rw [r.text_gap other, List.forall_mem_cons]
      exact ⟨all c (by simp), ih fun d member => all d (by simp [member])⟩
  | run word rest run fresh ih =>
      rw [r.text_run run fresh, List.forall_mem_append]
      exact ⟨fun c member => ident c ((r.isRun_word run).2 c member),
        ih fun d member => all d (by simp [member])⟩

/-! ### What looks at other characters alone -/

theorem head_text_of_run {word rest : List Char} (run : IsRun word) (fresh : Fresh rest) :
    ∃ c d tail tail', word ++ rest = c :: tail ∧ isIdentChar c = true ∧
      r.text (word ++ rest) = d :: tail' ∧ isIdentChar d = true := by
  rw [r.text_run run fresh]
  obtain ⟨filled, ident⟩ := run
  obtain ⟨filled', ident'⟩ := r.isRun_word ⟨filled, ident⟩
  obtain ⟨c, more, begun⟩ := List.exists_cons_of_ne_nil filled
  obtain ⟨d, more', begun'⟩ := List.exists_cons_of_ne_nil filled'
  exact ⟨c, d, more ++ rest, more' ++ r.text rest, by rw [begun, List.cons_append],
    ident c (by simp [begun]), by rw [begun', List.cons_append], ident' d (by simp [begun'])⟩

/-- A question about the first character that all identifier characters answer alike. -/
theorem any_head_text {test : Char → Bool} {answer : Bool}
    (uniform : ∀ c, isIdentChar c = true → test c = answer) (text : List Char) :
    (r.text text).head?.any test = text.head?.any test := by
  induction text using text_induction with
  | nil => rfl
  | gap c rest other ih => rw [r.text_gap other]; rfl
  | run word rest run fresh ih =>
      obtain ⟨c, d, tail, tail', begun, ident, begun', ident'⟩ := r.head_text_of_run run fresh
      rw [begun', begun]
      simp [uniform c ident, uniform d ident']

theorem end_or_text {test : Char → Bool} {answer : Bool}
    (uniform : ∀ c, isIdentChar c = true → test c = answer) (text : List Char) :
    Yaml.endOr test (r.text text) = Yaml.endOr test text := by
  induction text using text_induction with
  | nil => rfl
  | gap c rest other ih => rw [r.text_gap other]; rfl
  | run word rest run fresh ih =>
      obtain ⟨c, d, tail, tail', begun, ident, begun', ident'⟩ := r.head_text_of_run run fresh
      rw [begun', begun]
      simp [Yaml.endOr, uniform c ident, uniform d ident']

theorem head_text_beq {c : Char} (other : isIdentChar c = false) (text : List Char) :
    ((r.text text).head? == some c) = (text.head? == some c) := by
  have differs : ∀ d, isIdentChar d = true → (d == c) = false := by
    intro d ident
    rw [beq_eq_false_iff_ne]
    rintro rfl
    rw [ident] at other
    cases other
  have asked := r.any_head_text differs text
  have spelled : ∀ first : Option Char, (first == some c) = first.any (· == c) := by
    intro first
    cases first <;> rfl
  rw [spelled, spelled, asked]

theorem text_eq_cons_iff {c : Char} (other : isIdentChar c = false) {text rest : List Char} :
    r.text text = c :: rest ↔ ∃ tail, text = c :: tail ∧ rest = r.text tail := by
  constructor
  · intro begun
    have asked := r.head_text_beq other text
    rw [begun, List.head?_cons, beq_self_eq_true] at asked
    cases text with
    | nil => cases asked
    | cons d tail =>
        obtain rfl : d = c := by simpa using asked.symm
        rw [r.text_gap other] at begun
        exact ⟨tail, rfl, (List.cons.inj begun).2.symm⟩
  · rintro ⟨tail, rfl, rfl⟩
    exact r.text_gap other tail

/-- A stretch of characters among which are all identifier characters is the stretch changed. -/
theorem take_while_text {test : Char → Bool} (all : ∀ c, isIdentChar c = true → test c = true)
    (text : List Char) : (r.text text).takeWhile test = r.text (text.takeWhile test) := by
  induction text using text_induction with
  | nil => rfl
  | gap c rest other ih =>
      rw [r.text_gap other, List.takeWhile_cons, List.takeWhile_cons]
      split
      · rw [r.text_gap other, ih]
      · rfl
  | run word rest run fresh ih =>
      have inside : ∀ c ∈ word, test c = true := fun c member => all c (run.2 c member)
      have inside' : ∀ c ∈ r.word word, test c = true := fun c member =>
        all c ((r.isRun_word run).2 c member)
      have begun : Fresh (rest.takeWhile test) := by
        intro c first
        cases rest with
        | nil => cases first
        | cons d more =>
            rw [List.takeWhile_cons] at first
            split at first
            · cases first
              exact fresh c rfl
            · cases first
      rw [r.text_run run fresh, List.takeWhile_append_of_pos inside', ih,
        List.takeWhile_append_of_pos inside, r.text_run run begun]

theorem take_while_text_of_other {test : Char → Bool}
    (none : ∀ c, isIdentChar c = true → test c = false) (text : List Char) :
    (r.text text).takeWhile test = text.takeWhile test := by
  induction text using text_induction with
  | nil => rfl
  | gap c rest other ih => rw [r.text_gap other, List.takeWhile_cons, List.takeWhile_cons, ih]
  | run word rest run fresh ih =>
      obtain ⟨c, d, tail, tail', begun, ident, begun', ident'⟩ := r.head_text_of_run run fresh
      rw [begun', begun, List.takeWhile_cons_of_neg (by simp [none d ident']),
        List.takeWhile_cons_of_neg (by simp [none c ident])]

end Respelling

end MessageSchema.Text
