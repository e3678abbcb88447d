import MessageSchema.Handlers
import MessageSchema.Proofs.SnakeCase
import Mathlib.Data.List.Nodup

/-!
The slots of a handler module. Each message with an identifier for a name gets one, and the slot has
the snake case of that name. A handler is put into the slot that its attachment names, and a frame is
given to the handler in the slot that the arm of its message reads. Whether this is the handler of
that message depends on the snake case of the names alone, and different names may share it.
-/

namespace MessageSchema.Handlers

set_option autoImplicit false

open Text

/-! ### Reading the module -/

/-- The word of a line between an opening and the next `stop`. -/
def wordAfter (opening : String) (stop : Char) (line : String) : Option String :=
  if opening.toList.isPrefixOf line.toList then
    some (String.ofList ((line.toList.drop opening.toList.length).takeWhile (· != stop)))
  else none

def structLine : String := "pub struct EventHandlers \x7b"

/-- The fields of the structure of slots, in order. -/
def fields (lines : List String) : List String :=
  (((lines.dropWhile (· != structLine)).drop 1).takeWhile (· != "\x7d")).filterMap
    (wordAfter "    pub " ':')

theorem word_after_append {opening word rest : String} {stop : Char} (free : stop ∉ word.toList)
    (ends : rest.toList.head? = some stop) :
    wordAfter opening stop (opening ++ word ++ rest) = some word := by
  have kept : (word.toList ++ rest.toList).takeWhile (· != stop) = word.toList := by
    rw [List.takeWhile_append_of_pos (by
      intro c member
      exact bne_iff_ne.2 fun same => free (same ▸ member))]
    cases tail : rest.toList with
    | nil => simp
    | cons c more =>
        rw [tail] at ends
        simp [Option.some.inj ends]
  simp [wordAfter, String.toList_append, List.append_assoc, kept]

def Begins (front line : String) : Prop := ∃ rest, line = front ++ rest

theorem begins_append (front rest : String) : Begins front (front ++ rest) := ⟨rest, rfl⟩

theorem Begins.append {front line : String} (begins : Begins front line) (more : String) :
    Begins front (line ++ more) := by
  obtain ⟨rest, rfl⟩ := begins
  exact ⟨rest ++ more, String.append_assoc⟩

theorem Begins.ne {front line target : String} (begins : Begins front line)
    (apart : front.toList.isPrefixOf target.toList = false) : line ≠ target := by
  rintro rfl
  obtain ⟨rest, rfl⟩ := begins
  rw [String.toList_append, List.isPrefixOf_iff_prefix.2 (List.prefix_append _ _)] at apart
  cases apart

theorem Begins.word_after {front line opening : String} {stop : Char} (begins : Begins front line)
    (apart : opening.toList.isPrefixOf front.toList = false)
    (apart' : front.toList.isPrefixOf opening.toList = false) :
    wordAfter opening stop line = none := by
  obtain ⟨rest, rfl⟩ := begins
  refine if_neg fun starts => ?_
  rw [List.isPrefixOf_iff_prefix, String.toList_append] at starts
  rcases List.prefix_or_prefix_of_prefix starts (List.prefix_append _ _) with short | long
  · rw [List.isPrefixOf_iff_prefix.2 short] at apart
    cases apart
  · rw [List.isPrefixOf_iff_prefix.2 long] at apart'
    cases apart'

theorem is_ident_char_of_mem_slot {name : String} (ident : isIdentifier name = true) :
    ∀ c ∈ (slot name).toList, isIdentChar c = true := by
  have word := is_ident_char_of_mem_is_ident_word ident
  intro c member
  rw [slot, String.toList_append, to_list_to_snake_case, List.mem_append] at member
  rcases member with lead | own
  · exact List.all_eq_true.1 (show "handle_".toList.all isIdentChar = true by decide) c lead
  · exact is_ident_char_of_mem_snake_chars word c own

theorem not_mem_slot {name : String} {c : Char} (ident : isIdentifier name = true)
    (other : isIdentChar c = false) : c ∉ (slot name).toList := by
  intro member
  rw [is_ident_char_of_mem_slot ident c member] at other
  cases other

namespace Options

variable (o : Options)

theorem begins_type_line (name : String) : Begins "pub type " (o.typeLine name) :=
  (((((begins_append _ _).append _).append _).append _).append _).append _

theorem begins_attach_line (name : String) : Begins "impl Attach for " (o.attachLine name) :=
  (begins_append _ _).append _

theorem begins_slot_line (name : String) : Begins "    pub " (o.slotLine name) :=
  (((begins_append _ _).append _).append _).append _

theorem begins_arm_line (name : String) : Begins "            models::" (o.armLine name) :=
  (((begins_append _ _).append _).append _).append _

theorem word_after_slot_line {name : String} (ident : isIdentifier name = true) :
    wordAfter "    pub " ':' (o.slotLine name) = some (slot name) := by
  have split : o.slotLine name =
      "    pub " ++ slot name ++ (": Option<" ++ o.handlerType name ++ ">,") := by
    simp [slotLine, String.append_assoc]
  rw [split]
  exact word_after_append (not_mem_slot ident (by decide)) (by simp [String.toList_append])

theorem filter_map_slot_line {names : List String} (idents : ∀ name ∈ names, isIdentifier name = true) :
    (names.map o.slotLine).filterMap (wordAfter "    pub " ':') = names.map slot := by
  induction names with
  | nil => rfl
  | cons name rest ih =>
      rw [List.map_cons, List.filterMap_cons_some (o.word_after_slot_line (idents name (by simp))),
        ih fun other member => idents other (by simp [member]), List.map_cons]

/-- The structure is opened once in the module: no line before it has its text. -/
theorem ne_struct_line_of_mem_uses {line : String} (member : line ∈ o.uses) :
    line ≠ structLine := by
  simp only [uses, List.mem_append, List.mem_cons, List.not_mem_nil, or_false] at member
  rcases member with (((rfl | awaited) | rfl | rfl) | pinned) | rfl | rfl
  · decide
  · split at awaited
    · rw [List.mem_singleton.1 awaited]
      decide
    · cases awaited
  · decide
  · decide
  · split at pinned
    · rw [List.mem_singleton.1 pinned]
      decide
    · cases pinned
  · decide
  · exact ((begins_append _ _).append _).ne (by decide)

theorem ne_struct_line_of_mem_handler_lines {name line : String}
    (member : line ∈ o.handlerLines name) : line ≠ structLine := by
  simp only [handlerLines, List.mem_cons, List.not_mem_nil, or_false] at member
  rcases member with rfl | rfl | rfl | rfl | rfl | rfl | rfl
  · decide
  · exact (o.begins_type_line name).ne (by decide)
  · exact (o.begins_attach_line name).ne (by decide)
  · decide
  · exact ((begins_append _ _).append _).ne (by decide)
  · decide
  · decide

theorem fields_lines (c : Classification) : fields (o.lines c) = (handled c).map slot := by
  let front := ["//! This module is auto-generated - do not edit!", ""] ++ o.uses ++
    ["", "pub trait Attach \x7b", "    fn attach(&self, handlers: &mut EventHandlers);", "\x7d"] ++
    (handled c).flatMap o.handlerLines ++ ["", "#[derive(Clone, Copy, Default)]"]
  let back := ["", "impl EventHandlers \x7b", "    pub fn new() -> Self \x7b",
    "        Self::default()", "    \x7d", "", o.signature] ++
    o.dispatchLines (handled c) (skipped c) ++ ["        Ok(())", "    \x7d", "\x7d"]
  have parts : o.lines c =
      front ++ structLine :: ((handled c).map o.slotLine ++ "\x7d" :: back) := by
    simp [lines, front, back, structLine]
  have others : ∀ line ∈ front, (line != structLine) = true := by
    intro line member
    rw [bne_iff_ne]
    simp only [front, List.mem_append, List.mem_cons, List.not_mem_nil, or_false,
      List.mem_flatMap] at member
    rcases member with ((((rfl | rfl) | use) | rfl | rfl | rfl | rfl) | ⟨name, -, own⟩) | rfl | rfl
    · decide
    · decide
    · exact o.ne_struct_line_of_mem_uses use
    · decide
    · decide
    · decide
    · decide
    · exact o.ne_struct_line_of_mem_handler_lines own
    · decide
    · decide
  have slots : ∀ line ∈ (handled c).map o.slotLine, (line != "\x7d") = true := by
    intro line member
    obtain ⟨name, -, rfl⟩ := List.mem_map.1 member
    exact bne_iff_ne.2 ((o.begins_slot_line name).ne (by decide))
  rw [fields, parts, List.dropWhile_append_of_pos others, List.dropWhile_cons_of_neg (by simp),
    List.drop_succ_cons, List.drop_zero, List.takeWhile_append_of_pos slots,
    List.takeWhile_cons_of_neg (by simp), List.append_nil]
  exact o.filter_map_slot_line fun name member => is_identifier_of_mem_handled member

/-! ### Attaching and dispatching -/

def assignOpening : String := "        handlers."

def consultOpening : String := "                if let Some(handler) = self."

/-- The slots into which a handler of the message is put. -/
def assigned (name : String) : List String :=
  (o.handlerLines name).filterMap (wordAfter assignOpening ' ')

/-- The slots that the arm of the message looks into. -/
def consulted (name : String) : List String :=
  (o.armLines name).filterMap (wordAfter consultOpening ' ')

/-- One handler more: its message is what its slots hold from now on. -/
def attach (held : String → Option String) (message : String) : String → Option String :=
  fun field => if field ∈ o.assigned message then some message else held field

/-- What each slot holds once handlers of these messages have been attached, one after the other. -/
def attachAll (messages : List String) : String → Option String :=
  messages.foldl o.attach fun _ => none

/-- The message whose handler a frame of the event is given to. -/
def called (attached : List String) (event : String) : Option String :=
  (o.consulted event).findSome? (o.attachAll attached)

variable {o}

theorem assigned_eq {name : String} (ident : isIdentifier name = true) :
    o.assigned name = [slot name] := by
  have own : wordAfter assignOpening ' '
      ("        handlers." ++ slot name ++ " = Some(*self);") = some (slot name) :=
    word_after_append (not_mem_slot ident (by decide)) (by decide)
  have typed : wordAfter assignOpening ' ' (o.typeLine name) = none :=
    (o.begins_type_line name).word_after (by decide) (by decide)
  have implemented : wordAfter assignOpening ' ' (o.attachLine name) = none :=
    (o.begins_attach_line name).word_after (by decide) (by decide)
  have fixed : ∀ line ∈ ["", "    fn attach(&self, handlers: &mut EventHandlers) \x7b", "    \x7d",
      "\x7d"], wordAfter assignOpening ' ' line = none := by decide
  simp only [List.forall_mem_cons] at fixed
  obtain ⟨empty, function, ends, closes, -⟩ := fixed
  simp only [assigned, handlerLines, List.filterMap_cons, List.filterMap_nil, own, typed,
    implemented, empty, function, ends, closes]

theorem consulted_eq {name : String} (ident : isIdentifier name = true) :
    o.consulted name = [slot name] := by
  have own : wordAfter consultOpening ' '
      ("                if let Some(handler) = self." ++ slot name ++ " \x7b") = some (slot name) :=
    word_after_append (not_mem_slot ident (by decide)) (by decide)
  have arm : wordAfter consultOpening ' ' (o.armLine name) = none :=
    (o.begins_arm_line name).word_after (by decide) (by decide)
  have decoded : wordAfter consultOpening ' '
      ("                    let message: models::" ++ name ++ " = from_slice(&data)?;") = none :=
    ((begins_append _ _).append _).word_after (by decide) (by decide)
  have handed : wordAfter consultOpening ' '
      ("                    handler(message)" ++ (if o.asynchronous then ".await" else "") ++ ";") =
        none :=
    ((begins_append _ _).append _).word_after (by decide) (by decide)
  have logged : wordAfter consultOpening ' '
      ("                    debug!(\"No handler attached for " ++ name ++ "\");") = none :=
    ((begins_append _ _).append _).word_after (by decide) (by decide)
  have fixed : ∀ line ∈ ["                \x7d else \x7b", "                \x7d", "            \x7d"],
      wordAfter consultOpening ' ' line = none := by decide
  simp only [List.forall_mem_cons] at fixed
  obtain ⟨otherwise, ends, closes, -⟩ := fixed
  simp only [consulted, armLines, List.filterMap_cons, List.filterMap_nil, own, arm, decoded, handed,
    logged, otherwise, ends, closes]

theorem attach_slot {held : String → Option String} {message : String}
    (ident : isIdentifier message = true) (field : String) :
    o.attach held message field = if field = slot message then some message else held field := by
  simp [attach, assigned_eq ident]

/-- A slot holds the handler that was attached last among those that name it. -/
theorem attach_all_field {messages : List String}
    (idents : ∀ message ∈ messages, isIdentifier message = true) (field : String) :
    o.attachAll messages field = (messages.filter (slot · == field)).getLast? := by
  have from_held : ∀ held : String → Option String,
      messages.foldl o.attach held field =
        ((messages.filter (slot · == field)).getLast?).or (held field) := by
    induction messages with
    | nil => simp
    | cons message rest ih =>
        intro held
        rw [List.foldl_cons, ih (fun other member => idents other (by simp [member])),
          attach_slot (idents message (by simp)), List.filter_cons]
        by_cases own : slot message = field
        · simp only [own, beq_self_eq_true, if_true, List.getLast?_cons]
          cases (rest.filter (slot · == field)).getLast? <;> simp
        · simp [own, Ne.symm own]
  rw [attachAll, from_held]
  simp

theorem called_eq {attached : List String} {event : String}
    (idents : ∀ message ∈ attached, isIdentifier message = true)
    (ident : isIdentifier event = true) :
    o.called attached event = (attached.filter (slot · == slot event)).getLast? := by
  simp [called, consulted_eq ident, attach_all_field idents]

end Options

/-! ### When slots are shared -/

theorem slot_eq_iff {first second : String} :
    slot first = slot second ↔ toSnakeCase first = toSnakeCase second := by
  constructor
  · intro same
    have chars := congrArg String.toList same
    simp only [slot, String.toList_append] at chars
    exact String.toList_inj.1 (List.append_cancel_left chars)
  · intro same
    rw [slot, slot, same]

theorem to_snake_case_eq_iff {first second : String} :
    toSnakeCase first = toSnakeCase second ↔ snakeChars first.toList = snakeChars second.toList := by
  rw [← String.toList_inj, to_list_to_snake_case, to_list_to_snake_case]

theorem is_identifier_append_underscore {name : String} (ident : isIdentifier name = true) :
    isIdentifier (name ++ "_") = true := by
  rw [isIdentifier, String.toList_append]
  rw [isIdentifier] at ident
  cases chars : name.toList with
  | nil =>
      rw [chars] at ident
      cases ident
  | cons first rest =>
      rw [chars] at ident
      simp only [isIdentWord, Bool.and_eq_true, List.cons_append, List.all_append] at ident ⊢
      exact ⟨ident.1, ident.2, by decide⟩

theorem append_underscore_ne (name : String) : name ++ "_" ≠ name := by
  intro same
  have longer := congrArg (·.toList.length) same
  simp [String.toList_append] at longer

/-- An underscore at the end of a name gives another identifier with the same slot. -/
theorem slot_append_underscore {name : String} (ident : isIdentifier name = true) :
    slot (name ++ "_") = slot name := by
  rw [slot_eq_iff, to_snake_case_eq_iff, String.toList_append]
  exact snake_chars_append_underscore (is_ident_char_of_mem_is_ident_word ident)

/-- Names with one slot differ in the case of letters and in underscores only. -/
theorem bare_eq_of_slot {first second : String} (identFirst : isIdentifier first = true)
    (identSecond : isIdentifier second = true) (same : slot first = slot second) :
    bare first.toList = bare second.toList := by
  rw [slot_eq_iff, to_snake_case_eq_iff] at same
  rw [← filter_snake_chars (is_ident_char_of_mem_is_ident_word identFirst), same,
    filter_snake_chars (is_ident_char_of_mem_is_ident_word identSecond)]

theorem eq_of_slot_of_is_camel {first second : String} (identFirst : isIdentifier first = true)
    (identSecond : isIdentifier second = true) (camelFirst : isCamel first.toList = true)
    (camelSecond : isCamel second.toList = true) (same : slot first = slot second) :
    first = second := by
  rw [slot_eq_iff, to_snake_case_eq_iff] at same
  have characters := eq_of_snake_chars_of_is_camel (is_ident_char_of_mem_is_ident_word identFirst)
    (is_ident_char_of_mem_is_ident_word identSecond) camelFirst camelSecond same
  exact String.toList_inj.1 characters

variable {o : Options} {c : Classification}

theorem nodup_handled (distinct : c.subscribe.Nodup) : (handled c).Nodup := distinct.filter _

theorem nodup_fields_iff (distinct : c.subscribe.Nodup) :
    (fields (o.lines c)).Nodup ↔
      ∀ first ∈ handled c, ∀ second ∈ handled c, slot first = slot second → first = second := by
  rw [o.fields_lines]
  exact List.nodup_map_iff_inj_on (nodup_handled distinct)

/-- A frame is given to the handler of its own message, or to none if no such handler has been
attached. -/
def FindsOwn (o : Options) (c : Classification) : Prop :=
  ∀ attached : List String, (∀ message ∈ attached, message ∈ handled c) → ∀ event ∈ handled c,
    o.called attached event = if event ∈ attached then some event else none

theorem finds_own_iff :
    FindsOwn o c ↔
      ∀ first ∈ handled c, ∀ second ∈ handled c, slot first = slot second → first = second := by
  constructor
  · intro finds first member second memberSecond same
    have alone := finds [first] (by simpa using member) second memberSecond
    rw [Options.called_eq (by simpa using is_identifier_of_mem_handled member)
      (is_identifier_of_mem_handled memberSecond)] at alone
    by_contra different
    simp [same, Ne.symm different] at alone
  · intro apart attached within event member
    rw [Options.called_eq (fun message inside => is_identifier_of_mem_handled (within message inside))
      (is_identifier_of_mem_handled member)]
    -- The handlers in the slot of the event are those of the event itself.
    have own : attached.filter (slot · == slot event) = attached.filter (· == event) := by
      apply List.filter_congr
      intro message inside
      rw [Bool.eq_iff_iff, beq_iff_eq, beq_iff_eq]
      exact ⟨fun same => apart message (within message inside) event member same,
        fun same => by rw [same]⟩
    rw [own, List.filter_beq]
    split
    · next known => simp [List.getLast?_replicate, List.count_eq_zero, known]
    · next unknown => simp [List.count_eq_zero.2 unknown]

/-- The slots of a module are those of the messages with an identifier for a name. No two fields are
the same, and every frame finds the handler of its own message, just when no two of these messages
have the same name in snake case. Names that differ in more than underscores and the case of letters
never have, nor have names in camel case; but no message is safe from a namesake that ends in one
more underscore. -/
theorem slots_of_module (o : Options) (c : Classification) (distinct : c.subscribe.Nodup) :
    fields (o.lines c) = (handled c).map slot ∧
    ((fields (o.lines c)).Nodup ↔ ∀ first ∈ handled c, ∀ second ∈ handled c,
      first ≠ second → toSnakeCase first ≠ toSnakeCase second) ∧
    ((fields (o.lines c)).Nodup ↔ FindsOwn o c) ∧
    ((handled c).Pairwise (fun first second => bare first.toList ≠ bare second.toList) →
      (fields (o.lines c)).Nodup) ∧
    ((∀ name ∈ handled c, isCamel name.toList = true) → (fields (o.lines c)).Nodup) ∧
    ∀ name ∈ handled c, name ++ "_" ∉ c.subscribe →
      (c.subscribe ++ [name ++ "_"]).Nodup ∧
      ¬ (fields (o.lines ⟨c.publish, c.subscribe ++ [name ++ "_"]⟩)).Nodup := by
  refine ⟨o.fields_lines c, ?_, ?_, ?_, ?_, ?_⟩
  · rw [nodup_fields_iff distinct]
    constructor
    · intro apart first member second memberSecond different same
      exact different (apart first member second memberSecond (slot_eq_iff.2 same))
    · intro apart first member second memberSecond same
      by_contra different
      exact apart first member second memberSecond different (slot_eq_iff.1 same)
  · rw [nodup_fields_iff distinct, finds_own_iff]
  · intro apart
    rw [o.fields_lines, List.Nodup, List.pairwise_map]
    refine apart.imp_of_mem ?_
    intro first second member memberSecond different same
    exact different (bare_eq_of_slot (is_identifier_of_mem_handled member)
      (is_identifier_of_mem_handled memberSecond) same)
  · intro camel
    rw [nodup_fields_iff distinct]
    intro first member second memberSecond same
    exact eq_of_slot_of_is_camel (is_identifier_of_mem_handled member)
      (is_identifier_of_mem_handled memberSecond) (camel first member) (camel second memberSecond)
      same
  · intro name member fresh
    have ident := is_identifier_of_mem_handled member
    have longer : (c.subscribe ++ [name ++ "_"]).Nodup := by
      rw [List.nodup_append]
      refine ⟨distinct, by simp, ?_⟩
      intro known inside added last same
      rw [List.mem_singleton.1 last] at same
      exact fresh (same ▸ inside)
    refine ⟨longer, ?_⟩
    rw [nodup_fields_iff longer]
    intro apart
    refine append_underscore_ne name (apart _ ?_ _ ?_ (slot_append_underscore ident))
    · simp [handled, is_identifier_append_underscore ident]
    · simp only [handled, List.mem_filter] at member ⊢
      exact ⟨List.mem_append_left _ member.1, member.2⟩

theorem slots_of_module_camel :
    let c : Classification := ⟨["AudioSend"], ["AudioAdded", "bad-name", "AudioRemoved", "Eta2Closed"]⟩
    let o : Options := { asynchronous := true }
    c.subscribe.Nodup ∧
      fields (o.lines c) = ["handle_audio_added", "handle_audio_removed", "handle_eta2_closed"] ∧
      (fields (o.lines c)).Nodup ∧ FindsOwn o c := by
  intro c o
  have distinct : c.subscribe.Nodup := by decide
  obtain ⟨listed, -, finds, -, camel, -⟩ := slots_of_module o c distinct
  have apart : (fields (o.lines c)).Nodup := camel (by decide)
  exact ⟨distinct, listed.trans (by decide), apart, finds.1 apart⟩

/-- Two messages of one module may share a slot. Its structure then has a field twice, and a frame of
the first is given to the handler that was attached for the second. -/
theorem slots_shared :
    let c : Classification := ⟨[], ["FooBar", "foo_bar"]⟩
    let o : Options := {}
    c.subscribe.Nodup ∧ fields (o.lines c) = ["handle_foo_bar", "handle_foo_bar"] ∧
      ¬ (fields (o.lines c)).Nodup ∧ o.called ["foo_bar"] "FooBar" = some "foo_bar" := by
  intro c o
  have listed : fields (o.lines c) = ["handle_foo_bar", "handle_foo_bar"] := by
    rw [Options.fields_lines]
    decide
  refine ⟨by decide, listed, by simp [listed], ?_⟩
  rw [Options.called_eq (by decide) (by decide)]
  decide

end MessageSchema.Handlers
