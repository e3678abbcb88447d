import MessageSchema.Proofs.HandlerLines
import MessageSchema.Proofs.Identifiers

/-!
The text of a handler module, line by line. What a line is for can be told from how it begins, so the
text is read by the beginnings of its lines: the types, the attachments, the fields and the arms of
the dispatcher are found again, one of each for every handled message and in the order of the
messages. This holds as long as neither the path of the models nor the name of their enumeration
brings a line of its own into the text.
-/

namespace MessageSchema.Handlers

set_option autoImplicit false

open Text

/-! ### Reading the lines -/

section Gathering

variable {heading entry : String → Option String}

theorem filter_map_filter {α : Type} {p : String → Bool} {word : String → Option α}
    (silent : ∀ line, p line = false → word line = none) (lines : List String) :
    (lines.filter p).filterMap word = lines.filterMap word := by
  rw [List.filterMap_filter]
  apply List.filterMap_congr
  intro line _
  cases here : p line with
  | true => rfl
  | false => exact (silent line here).symm

end Gathering

theorem word_after_eq_none {opening line : String} {stop : Char}
    (other : starts opening line = false) : wordAfter opening stop line = none :=
  if_neg (ne_true_of_eq_false other)

namespace Options

variable (o : Options) (c : Classification)

/-- The tests that a module is read by, each with the lines that pass it. -/
structure Readings : Prop where
  types : (Test.opening "pub type ").Answers [false, false, false, false]
    [false, true, false, false, false, false, false] false (List.replicate 8 false)
  attachments : (Test.opening "impl Attach for ").Answers [false, false, false, false]
    [false, false, true, false, false, false, false] false (List.replicate 8 false)
  assigned : (Test.opening "        handlers.").Answers [false, false, false, false]
    [false, false, false, false, true, false, false] false (List.replicate 8 false)
  slots : (Test.opening "    pub handle_").Answers [false, false, false, false]
    (List.replicate 7 false) true (List.replicate 8 false)
  arms : (Test.opening "            models::").Answers [false, false, false, false]
    (List.replicate 7 false) false [true, false, false, false, false, false, false, false]
  consulted : (Test.opening "                if let Some(handler) = self.").Answers
    [false, false, false, false] (List.replicate 7 false) false
    [false, true, false, false, false, false, false, false]
  decoded : (Test.opening "                    let message: models::").Answers
    [false, false, false, false] (List.replicate 7 false) false
    [false, false, true, false, false, false, false, false]
  matched : (Test.word "match ").Answers [false, true, false, false]
    (List.replicate 7 false) false (List.replicate 8 false)
  fallback : (Test.word "_ =>").Answers [false, false, true, false]
    (List.replicate 7 false) false (List.replicate 8 false)

theorem readings : Readings := by
  constructor
  all_goals constructor
  all_goals
    repeat' apply List.Forall₂.cons
    all_goals first
      | exact .nil
      | with_reducible refine (Test.opening_whole _ _).trans ?_
      | with_reducible refine (Test.opening_front _ _).trans ?_
      | with_reducible refine (Test.word_whole _ _).trans ?_
      | with_reducible refine (Test.word_front _ _).trans ?_
    all_goals rfl

theorem filter_types : (o.lines c).filter (starts "pub type ") = (handled c).map o.typeLine := by
  rw [← Test.opening_holds]
  exact Test.map_of_handlers _ o (Readings.types readings) c fun _ => rfl

theorem filter_slots :
    (o.lines c).filter (starts "    pub handle_") = (handled c).map o.slotLine := by
  rw [← Test.opening_holds]
  exact Test.filter_of_slots _ o (Readings.slots readings) c

theorem filter_arms :
    (o.lines c).filter (starts "            models::") = (handled c).map o.armLine := by
  rw [← Test.opening_holds]
  exact Test.map_of_arms _ o (Readings.arms readings) c fun _ => rfl

end Options

/-! ### What belongs together -/

/-- The message that a line opens an arm for. -/
def matched? (enumName : String) : String → Option String :=
  wordAfter ("            models::" ++ enumName ++ "::") ' '

theorem word_after_of_starts {opening line : String} {stop : Char} (more : String)
    (other : starts opening line = false) : wordAfter (opening ++ more) stop line = none := by
  refine if_neg fun begins => ?_
  rw [List.isPrefixOf_iff_prefix, String.toList_append] at begins
  rw [starts, List.isPrefixOf_iff_prefix.2 ((List.prefix_append _ _).trans begins)] at other
  cases other

namespace Options

variable (o : Options) (c : Classification)

theorem not_mem_handler_type {name : String} {c : Char} (ident : isIdentifier name = true)
    (other : isIdentChar c = false) : c ∉ (o.handlerType name).toList := by
  have word := is_ident_char_of_mem_is_ident_word ident
  have suffix : (if o.asynchronous then "Handler" else "Callback").toList.all isIdentChar = true := by
    split <;> decide
  intro member
  rw [handlerType, String.toList_append, List.mem_append] at member
  rcases member with own | added
  · rw [word c own] at other
    cases other
  · rw [List.all_eq_true.1 suffix c added] at other
    cases other

theorem matched_arm_line {name : String} (ident : isIdentifier name = true) :
    matched? o.enumName (o.armLine name) = some name := by
  have blank : ' ' ∉ name.toList := by
    intro member
    exact absurd (is_ident_char_of_mem_is_ident_word ident _ member) (by decide)
  exact word_after_append blank (by decide)

end Options

/-! ### The written text -/

theorem unbroken_name {name : String} (ident : isIdentifier name = true) : Unbroken name :=
  unbroken_of_is_ident_char (is_ident_char_of_mem_is_ident_word ident)

theorem unbroken_slot {name : String} (ident : isIdentifier name = true) : Unbroken (slot name) :=
  unbroken_of_is_ident_char (is_ident_char_of_mem_slot ident)

namespace Options

variable (o : Options)

theorem unbroken_handler_type {name : String} (ident : isIdentifier name = true) :
    Unbroken (o.handlerType name) := by
  apply Unbroken.append (unbroken_name ident)
  split
  all_goals
    with_reducible apply unbroken_of_list
    rfl

theorem unbroken_returned : Unbroken o.returned := by
  unfold returned
  split
  all_goals
    with_reducible apply unbroken_of_list
    rfl

theorem unbroken_message {name : String} (ident : isIdentifier name = true)
    (enum : Unbroken o.enumName) :
    ∀ line ∈ o.handlerLines name ++ [o.slotLine name] ++ o.armLines name, Unbroken line := by
  have own := unbroken_name ident
  have field := unbroken_slot ident
  have type := o.unbroken_handler_type ident
  have returned := o.unbroken_returned
  have awaited : Unbroken (if o.asynchronous then ".await" else "") := by
    split
    all_goals
      with_reducible apply unbroken_of_list
      rfl
  unfold handlerLines typeLine attachLine slotLine armLines armLine
  simp only [List.cons_append, List.nil_append]
  repeat' with_reducible refine List.forall_mem_cons.2 ⟨?_, ?_⟩
  all_goals
    repeat' with_reducible apply Unbroken.append
    all_goals first
      | with_reducible assumption
      | exact List.forall_mem_nil _
      | with_reducible apply unbroken_of_list
        rfl

theorem unbroken_frame (path : Unbroken o.modelsPath) (enum : Unbroken o.enumName) :
    ∀ line ∈ o.head ++ opening ++ o.functions ++ closing ++
      ["        let _ = (event, data);", "        match event \x7b", fallbackLine, "        \x7d"],
      Unbroken line := by
  unfold head uses opening structLine functions signature closing fallbackLine
  repeat' with_reducible refine List.forall_mem_append.2 ⟨?_, ?_⟩
  all_goals
    try split
  all_goals
    repeat' with_reducible refine List.forall_mem_cons.2 ⟨?_, ?_⟩
  all_goals
    repeat' with_reducible apply Unbroken.append
    all_goals first
      | with_reducible assumption
      | exact List.forall_mem_nil _
      | with_reducible apply unbroken_of_list
        rfl

theorem mem_dispatch_lines {names others : List String} {line : String}
    (member : line ∈ o.dispatchLines names others) :
    line ∈ ["        let _ = (event, data);", "        match event \x7b", fallbackLine,
        "        \x7d"] ∨
      ∃ name ∈ names, line ∈ o.armLines name := by
  unfold dispatchLines at member
  split at member
  · rw [List.mem_singleton.1 member]
    exact Or.inl List.mem_cons_self
  · simp only [List.mem_append, List.mem_singleton, List.mem_flatMap] at member
    rcases member with ((rfl | inside) | fallback) | rfl
    · exact Or.inl (by simp)
    · exact Or.inr inside
    · split at fallback
      · cases fallback
      · rw [List.mem_singleton.1 fallback]
        exact Or.inl (by simp)
    · exact Or.inl (by simp)

theorem unbroken_lines (path : Unbroken o.modelsPath) (enum : Unbroken o.enumName)
    (c : Classification) : ∀ line ∈ o.lines c, Unbroken line := by
  have message := fun name (member : name ∈ handled c) =>
    o.unbroken_message (is_identifier_of_mem_handled member) enum
  have frame := o.unbroken_frame path enum
  intro line member
  simp only [lines_eq, List.mem_append, List.mem_flatMap, List.mem_map] at member
  rcases member with (((((first | own) | opens) | field) | functions) | dispatch) | closes
  · exact frame line (by simp only [List.mem_append, first, true_or])
  · rcases own with ⟨name, known, inside⟩
    exact message name known line (by simp only [List.mem_append, inside, true_or])
  · exact frame line (by simp only [List.mem_append, opens, true_or, or_true])
  · rcases field with ⟨name, known, rfl⟩
    exact message name known _ (by simp only [List.mem_append, List.mem_singleton, true_or, or_true])
  · exact frame line (by simp only [List.mem_append, functions, true_or, or_true])
  · rcases o.mem_dispatch_lines dispatch with around | ⟨name, known, inside⟩
    · exact frame line (List.mem_append_right _ around)
    · exact message name known line (List.mem_append_right _ inside)
  · exact frame line (by simp only [List.mem_append, closes, true_or, or_true])

end Options

/-- Written out, a module has the lines it was made of. -/
theorem text_lines_render (o : Options) (c : Classification) (path : Unbroken o.modelsPath)
    (enum : Unbroken o.enumName) : textLines (render o c) = o.lines c :=
  text_lines_join (o.unbroken_lines path enum c)

/-! ### The slots of a module -/

end MessageSchema.Handlers
