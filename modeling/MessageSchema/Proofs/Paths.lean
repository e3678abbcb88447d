import MessageSchema.Files.Path

/-!
The paths that lead to a path. Each is made of an initial part of its pieces, so it begins in the
same directory and takes the same steps, only fewer.
-/

namespace MessageSchema.Files.Path

set_option autoImplicit false

theorem split_ne_nil (text : List Char) : split text ≠ [] := by
  cases text with
  | nil => simp [split]
  | cons c rest =>
      simp only [split, List.foldr_cons]
      split
      · simp
      · split <;> simp

theorem split_cons (c : Char) (rest : List Char) :
    split (c :: rest) =
      if c == '/' then [] :: split rest else (split rest).modifyHead (List.cons c) := by
  cases cut : split rest with
  | nil => exact absurd cut (split_ne_nil rest)
  | cons piece others =>
      rw [split] at cut
      rw [split, List.foldr_cons, cut]
      rfl

theorem split_eq_split_on (text : List Char) : split text = text.splitOn '/' := by
  induction text with
  | nil => rfl
  | cons c rest ih => rw [split_cons, ih, List.splitOn_cons_eq_if_modifyHead]

theorem slash_not_mem_split (text : List Char) : ∀ piece ∈ split text, '/' ∉ piece := by
  induction text with
  | nil => simp [split]
  | cons c rest ih =>
      rw [split_cons]
      split
      · simpa using ih
      · next other =>
          cases cut : split rest with
          | nil => simp
          | cons piece others =>
              rw [cut] at ih
              obtain ⟨first, later⟩ := List.forall_mem_cons.1 ih
              refine List.forall_mem_cons.2 ⟨?_, later⟩
              simp only [List.mem_cons, not_or]
              exact ⟨fun same => other (by simp [← same]), first⟩

theorem pieces_of_pieces {pieces : List (List Char)} (filled : pieces ≠ [])
    (clean : ∀ piece ∈ pieces, '/' ∉ piece) : (ofPieces pieces).pieces = pieces := by
  have text : (ofPieces pieces).text.toList = ['/'].intercalate pieces := by
    simp [ofPieces, String.toList_intercalate, Function.comp_def]
  rw [Path.pieces, split_eq_split_on, text]
  exact List.splitOn_intercalate '/' clean filled

/-- A path is absolute when its first piece is empty and not its only one. -/
theorem absolute_iff (path : Path) :
    path.absolute = true ↔ ∃ rest, rest ≠ [] ∧ path.pieces = [] :: rest := by
  unfold absolute pieces
  cases path.text.toList with
  | nil => simp [split]
  | cons c rest =>
      rw [split_cons]
      split
      · next slash => simp [eq_of_beq slash, split_ne_nil]
      · next other =>
          cases cut : split rest with
          | nil => exact absurd cut (split_ne_nil rest)
          | cons piece others => simpa using other

def stepsOf (pieces : List (List Char)) : List String :=
  (pieces.filter fun piece => !piece.isEmpty).map String.ofList

theorem steps_of_append (front back : List (List Char)) :
    stepsOf (front ++ back) = stepsOf front ++ stepsOf back := by
  simp [stepsOf]

theorem steps_of_initial {front whole : List (List Char)} (part : front <+: whole) :
    stepsOf front <+: stepsOf whole := by
  obtain ⟨back, rfl⟩ := part
  exact ⟨stepsOf back, (steps_of_append front back).symm⟩

theorem intercalate_initial {front whole : List (List Char)} (part : front <+: whole) :
    ['/'].intercalate front <+: ['/'].intercalate whole := by
  induction front generalizing whole with
  | nil => exact List.nil_prefix
  | cons piece rest ih =>
      obtain ⟨back, rfl⟩ := part
      by_cases last : rest = []
      · subst last
        cases back with
        | nil => exact ⟨[], List.append_nil _⟩
        | cons next others =>
            rw [List.intercalate_singleton, List.singleton_append,
              List.intercalate_cons_of_ne_nil (List.cons_ne_nil _ _), List.append_assoc]
            exact List.prefix_append _ _
      · have more : rest ++ back ≠ [] := List.append_ne_nil_of_left_ne_nil last back
        rw [List.cons_append, List.intercalate_cons_of_ne_nil last,
          List.intercalate_cons_of_ne_nil more]
        exact (List.prefix_append_right_inj _).2 (ih (List.prefix_append _ _))

/-- A path that begins like another, and that leads somewhere. -/
structure Begins (front path : Path) : Prop where
  absolute : front.absolute = path.absolute
  pieces : front.pieces <+: path.pieces
  filled : front.steps = [] → front.absolute = true

theorem Begins.steps {front path : Path} (begins : front.Begins path) :
    front.steps <+: path.steps := steps_of_initial begins.pieces

theorem Begins.fault {front path : Path} (begins : front.Begins path)
    (sound : path.fault? = none) : front.fault? = none := by
  have text : ∀ path : Path, path.text.toList = ['/'].intercalate path.pieces := by
    intro path
    rw [Path.pieces, split_eq_split_on, List.intercalate_splitOn]
  obtain ⟨back, whole⟩ : front.text.toList <+: path.text.toList := by
    rw [text, text]
    exact intercalate_initial begins.pieces
  have parts : front.text ++ String.ofList back = path.text := by
    rw [← String.toList_inj, String.toList_append, String.toList_ofList, whole]
  simp only [Path.fault?, ← parts, String.toList_append, String.utf8ByteSize_append] at sound ⊢
  split at sound
  · contradiction
  · next clean =>
      split at sound
      · contradiction
      · next short =>
          rw [if_neg, if_neg]
          · omega
          · exact fun null => clean (by simp_all)

theorem mem_lineage {first : List Char} {back : List (List Char)} {path : Path}
    (member : path ∈ lineage first back) :
    ∃ front, front <:+ back ∧ path = ofPieces (first :: front.reverse) ∧
      (front = [] → first ≠ []) ∧ (lineage first front).head? = some path := by
  induction back with
  | nil =>
      simp only [lineage] at member
      split at member
      · simp at member
      · next filled =>
          have same := List.mem_singleton.1 member
          refine ⟨[], List.suffix_refl _, same, fun _ blank => filled (by simp [blank]), ?_⟩
          rw [lineage, if_neg filled, same]
          rfl
  | cons last before ih =>
      have shorter : path ∈ lineage first before →
          ∃ front, front <:+ last :: before ∧ path = ofPieces (first :: front.reverse) ∧
            (front = [] → first ≠ []) ∧ (lineage first front).head? = some path := by
        intro earlier
        obtain ⟨front, part, parts⟩ := ih earlier
        exact ⟨front, part.trans (List.suffix_cons _ _), parts⟩
      simp only [lineage] at member
      split at member
      · exact shorter member
      · next kept =>
          rcases List.mem_cons.1 member with here | earlier
          · refine ⟨last :: before, List.suffix_refl _, here, fun none => by simp at none, ?_⟩
            rw [lineage, if_neg kept, here]
            rfl
          · exact shorter earlier

theorem mem_tail_lineage {first : List Char} {back : List (List Char)} {path : Path}
    (member : path ∈ (lineage first back).tail) :
    ∃ last before, last :: before <:+ back ∧ last ≠ [] ∧ path ∈ lineage first before := by
  induction back with
  | nil =>
      simp only [lineage] at member
      split at member <;> simp at member
  | cons last before ih =>
      simp only [lineage] at member
      split at member
      · obtain ⟨step, earlier, part, rest⟩ := ih member
        exact ⟨step, earlier, part.trans (List.suffix_cons _ _), rest⟩
      · next kept =>
          refine ⟨last, before, List.suffix_refl _, fun blank => kept ?_, member⟩
          simp [blank]

theorem pieces_of_mem_lineage {part : Path} {first : List Char} {before : List (List Char)}
    (clean : ∀ piece ∈ first :: before.reverse, '/' ∉ piece) (member : part ∈ lineage first before) :
    ∃ taken, part.pieces = first :: taken.reverse ∧
      first :: taken.reverse <+: first :: before.reverse ∧ (taken = [] → first ≠ []) ∧
      part.ancestry.head? = some part := by
  obtain ⟨taken, short, rfl, named, head⟩ := mem_lineage member
  have initial : first :: taken.reverse <+: first :: before.reverse :=
    (List.cons_prefix_cons).2 ⟨rfl, List.reverse_prefix.2 short⟩
  have pieces := pieces_of_pieces (List.cons_ne_nil _ _) fun piece member =>
    clean piece (initial.subset member)
  refine ⟨taken, pieces, initial, named, ?_⟩
  rw [ancestry, pieces]
  simpa using head

theorem begins_of_mem_lineage {path part : Path} {first : List Char} {before : List (List Char)}
    (front : first :: before.reverse <+: path.pieces) (member : part ∈ lineage first before) :
    part.pieces <+: first :: before.reverse ∧ part.Begins path ∧
      part.ancestry.head? = some part := by
  have clean : ∀ piece ∈ first :: before.reverse, '/' ∉ piece := fun piece member =>
    slash_not_mem_split _ piece (front.subset member)
  obtain ⟨taken, pieces, initial, named, head⟩ := pieces_of_mem_lineage clean member
  have whole := initial.trans front
  refine ⟨by rw [pieces]; exact initial, ⟨?_, by rw [pieces]; exact whole, ?_⟩, head⟩
  · obtain ⟨rest, tail⟩ := whole
    rw [Bool.eq_iff_iff, absolute_iff, absolute_iff, pieces, ← tail, List.cons_append]
    -- Both are absolute when the first piece is empty, and then the part does not end with it.
    constructor
    · rintro ⟨steps, some, same⟩
      obtain ⟨rfl, rfl⟩ := List.cons.inj same
      exact ⟨_, by simp [some], rfl⟩
    · rintro ⟨steps, _, same⟩
      obtain ⟨rfl, _⟩ := List.cons.inj same
      refine ⟨taken.reverse, fun none => ?_, rfl⟩
      exact named (List.reverse_eq_nil_iff.1 none) rfl
  · intro still
    have blank : first = [] := by
      have gone : stepsOf (first :: taken.reverse) = [] := pieces ▸ still
      simp only [stepsOf, List.map_eq_nil_iff, List.filter_eq_nil_iff] at gone
      simpa using gone first (by simp)
    rw [absolute_iff]
    exact ⟨taken.reverse, fun none => named (List.reverse_eq_nil_iff.1 none) blank, by
      rw [pieces, blank]⟩

theorem begins_of_mem_ancestry {path part : Path} (member : part ∈ path.ancestry) :
    part.Begins path := by
  unfold ancestry at member
  split at member
  · simp at member
  · next first rest cut =>
      have front : first :: rest.reverse.reverse <+: path.pieces := ⟨[], by simp [cut]⟩
      exact (begins_of_mem_lineage front member).2.1

theorem Begins.trans {a b c : Path} (first : a.Begins b) (second : b.Begins c) : a.Begins c :=
  ⟨first.absolute.trans second.absolute, first.pieces.trans second.pieces, first.filled⟩

/-- A path that leads to another: it begins like it and ends before its last step. -/
structure Leads (front path : Path) : Prop extends front.Begins path where
  before : front.steps <+: path.steps.dropLast

theorem Begins.leads {part front path : Path} (begins : part.Begins front)
    (leads : front.Leads path) : part.Leads path :=
  ⟨begins.trans leads.toBegins, begins.steps.trans leads.before⟩

/-- The parent of a path leads to it, and comes first among the paths that lead to itself. -/
theorem leads_of_parent {path parent : Path} (found : path.parent? = some parent) :
    parent.Leads path ∧ parent.ancestry.head? = some parent := by
  have member := List.mem_of_mem_head? found
  unfold ancestry at member
  split at member
  · simp at member
  · next first rest cut =>
      obtain ⟨last, before, part, filled, earlier⟩ := mem_tail_lineage member
      have longer : (first :: before.reverse) ++ [last] <+: path.pieces := by
        have turned := List.reverse_prefix.2 part
        rw [List.reverse_reverse, List.reverse_cons] at turned
        rw [cut]
        exact (List.cons_prefix_cons).2 ⟨rfl, turned⟩
      obtain ⟨shorter, begins, head⟩ :=
        begins_of_mem_lineage ((List.prefix_append _ _).trans longer) earlier
      refine ⟨⟨begins, (steps_of_initial shorter).trans ?_⟩, head⟩
      obtain ⟨back, whole⟩ := steps_of_initial longer
      have step : stepsOf [last] = [String.ofList last] := by simp [stepsOf, filled]
      have steps : path.steps = stepsOf (first :: before.reverse) ++ String.ofList last :: back := by
        rw [steps_of_append, step, List.append_assoc] at whole
        exact whole.symm
      rw [steps, List.dropLast_append_of_ne_nil (List.cons_ne_nil _ _)]
      exact List.prefix_append _ _

end MessageSchema.Files.Path
