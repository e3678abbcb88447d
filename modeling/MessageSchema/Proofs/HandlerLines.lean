import MessageSchema.Proofs.LineShapes

/-!
The lines of a handler module by their shapes. Around the handler types, the slots and the arms of the
dispatcher stands a frame of fixed lines and of three that the options fill in. A test that no shape
of the frame passes picks the same lines out of the part of each message.
-/

namespace MessageSchema.Handlers

set_option autoImplicit false

open Text

/-- How the lines of a handler type look, one after the other. -/
def handlerShapes : List Shape := [
  .whole "",
  .front "pub type ",
  .front "impl Attach for ",
  .whole "    fn attach(&self, handlers: &mut EventHandlers) \x7b",
  .front "        handlers.handle_",
  .whole "    \x7d",
  .whole "\x7d"]

abbrev slotShape : Shape := .front "    pub handle_"

def armShapes : List Shape := [
  .front "            models::",
  .front "                if let Some(handler) = self.handle_",
  .front "                    let message: models::",
  .front "                    handler(message)",
  .whole "                \x7d else \x7b",
  .front "                    debug!(\"No handler attached for ",
  .whole "                \x7d",
  .whole "            \x7d"]

/-- How the other lines look, whatever their order. -/
def frameShapes : List Shape := [
  .whole "//! This module is auto-generated - do not edit!",
  .whole "",
  .front "use ",
  .whole "pub trait Attach \x7b",
  .whole "    fn attach(&self, handlers: &mut EventHandlers);",
  .whole "\x7d",
  .whole "#[derive(Clone, Copy, Default)]",
  .whole "pub struct EventHandlers \x7b",
  .whole "impl EventHandlers \x7b",
  .whole "    pub fn new() -> Self \x7b",
  .whole "        Self::default()",
  .whole "    \x7d",
  .front "    pub fn handle_event(",
  .front "    pub async fn handle_event(",
  .whole "        Ok(())"]

def dispatchShapes : List Shape := [
  .whole "        let _ = (event, data);",
  .whole "        match event \x7b",
  .whole "            _ => debug!(\"No handler slot for event\"),",
  .whole "        \x7d"]

def assignLine (name : String) : String := "        handlers." ++ slot name ++ " = Some(*self);"

def consultLine (name : String) : String :=
  "                if let Some(handler) = self." ++ slot name ++ " \x7b"

theorem begins_slot {before : String} (name rest : String) :
    Begins (before ++ "handle_") (before ++ slot name ++ rest) := by
  refine ⟨toSnakeCase name ++ rest, ?_⟩
  simp only [slot, String.append_assoc]

namespace Options

variable (o : Options)

theorem fit_handler_lines (name : String) :
    List.Forall₂ Shape.Admits handlerShapes (o.handlerLines name) := by
  have assigns : Begins "        handlers.handle_" (assignLine name) := begins_slot name _
  exact .cons rfl (.cons (o.begins_type_line name) (.cons (o.begins_attach_line name) (.cons rfl
    (.cons assigns (.cons rfl (.cons rfl .nil))))))

theorem admits_slot_line (name : String) : slotShape.Admits (o.slotLine name) := by
  have parts : o.slotLine name =
      "    pub " ++ slot name ++ (": Option<" ++ o.handlerType name ++ ">,") := by
    simp only [slotLine, String.append_assoc]
  rw [parts]
  exact begins_slot name _

theorem fit_arm_lines (name : String) :
    List.Forall₂ Shape.Admits armShapes (o.armLines name) := by
  have consults : Begins "                if let Some(handler) = self.handle_" (consultLine name) :=
    begins_slot name _
  have decodes := (begins_append "                    let message: models::" name).append
    " = from_slice(&data)?;"
  have calls := (begins_append "                    handler(message)"
    (if o.asynchronous then ".await" else "")).append ";"
  have logs := (begins_append "                    debug!(\"No handler attached for " name).append
    "\");"
  exact .cons (o.begins_arm_line name) (.cons consults (.cons decodes (.cons calls (.cons rfl
    (.cons logs (.cons rfl (.cons rfl .nil)))))))

def head : List String :=
  ["//! This module is auto-generated - do not edit!", ""] ++ o.uses ++
    ["", "pub trait Attach \x7b", "    fn attach(&self, handlers: &mut EventHandlers);", "\x7d"]

def functions : List String :=
  ["\x7d", "", "impl EventHandlers \x7b", "    pub fn new() -> Self \x7b",
    "        Self::default()", "    \x7d", "", o.signature]

def opening : List String := ["", "#[derive(Clone, Copy, Default)]", structLine]

def closing : List String := ["        Ok(())", "    \x7d", "\x7d"]

theorem lines_eq (c : Classification) :
    o.lines c = o.head ++ (handled c).flatMap o.handlerLines ++ opening ++
      (handled c).map o.slotLine ++ o.functions ++ o.dispatchLines (handled c) (skipped c) ++
        closing := rfl

theorem admits_uses {line : String} (member : line ∈ o.uses) :
    line = "" ∨ Begins "use " line := by
  have begins : ∀ text : String, Begins "use " ("use " ++ text) := begins_append "use "
  simp only [uses, List.mem_append, List.mem_cons, List.not_mem_nil, or_false] at member
  rcases member with (((rfl | awaited) | rfl | rfl) | pinned) | rfl | rfl
  · exact Or.inr (begins "anyhow::Result;")
  · split at awaited
    · exact Or.inr (List.mem_singleton.1 awaited ▸ begins "futures::Future;")
    · cases awaited
  · exact Or.inr (begins "log::debug;")
  · exact Or.inr (begins "serde_json::from_slice;")
  · split at pinned
    · exact Or.inr (List.mem_singleton.1 pinned ▸ begins "std::pin::Pin;")
    · cases pinned
  · exact Or.inl rfl
  · exact Or.inr ((begins o.modelsPath).append ";")

theorem admits_head {line : String} (member : line ∈ o.head) :
    ∃ shape ∈ frameShapes, shape.Admits line := by
  simp only [head, List.mem_append, List.mem_cons, List.not_mem_nil, or_false] at member
  rcases member with ((rfl | rfl) | use) | rfl | rfl | rfl | rfl
  · exact ⟨.whole _, by simp [frameShapes], rfl⟩
  · exact ⟨.whole _, by simp [frameShapes], rfl⟩
  · rcases o.admits_uses use with rfl | begins
    · exact ⟨.whole "", by simp [frameShapes], rfl⟩
    · exact ⟨.front "use ", by simp [frameShapes], begins⟩
  all_goals exact ⟨.whole _, by simp [frameShapes], rfl⟩

theorem admits_functions {line : String} (member : line ∈ o.functions) :
    ∃ shape ∈ frameShapes, shape.Admits line := by
  simp only [functions, List.mem_cons, List.not_mem_nil, or_false] at member
  rcases member with rfl | rfl | rfl | rfl | rfl | rfl | rfl | rfl
  case inr.inr.inr.inr.inr.inr.inr =>
    unfold signature
    split
    · refine ⟨.front "    pub async fn handle_event(", by simp [frameShapes], ?_⟩
      exact ((begins_append "    pub async fn handle_event("
        "&self, event: models::").append o.enumName).append _
    · refine ⟨.front "    pub fn handle_event(", by simp [frameShapes], ?_⟩
      exact ((begins_append "    pub fn handle_event("
        "&self, event: models::").append o.enumName).append _
  all_goals exact ⟨.whole _, by simp [frameShapes], rfl⟩

theorem admits_opening {line : String} (member : line ∈ opening) :
    ∃ shape ∈ frameShapes, shape.Admits line := by
  simp only [opening, structLine, List.mem_cons, List.not_mem_nil, or_false] at member
  rcases member with rfl | rfl | rfl
  all_goals exact ⟨.whole _, by simp [frameShapes], rfl⟩

theorem admits_closing {line : String} (member : line ∈ closing) :
    ∃ shape ∈ frameShapes, shape.Admits line := by
  simp only [closing, List.mem_cons, List.not_mem_nil, or_false] at member
  rcases member with rfl | rfl | rfl
  all_goals exact ⟨.whole _, by simp [frameShapes], rfl⟩

end Options

namespace Test

variable (t : Test) (o : Options)

/-- A test that no line of the frame passes is one of the handler types, the slots and the
dispatcher. -/
theorem filter_lines (c : Classification)
    (frame : ∀ shape ∈ frameShapes, t.settled? shape = some false) :
    (o.lines c).filter t.holds =
      (handled c).flatMap (fun name => (o.handlerLines name).filter t.holds) ++
        ((handled c).map o.slotLine).filter t.holds ++
          (o.dispatchLines (handled c) (skipped c)).filter t.holds := by
  have first := t.filter_eq_nil_of_shapes (fun _ => o.admits_head) frame
  have second := t.filter_eq_nil_of_shapes (fun _ => Options.admits_opening) frame
  have third := t.filter_eq_nil_of_shapes (fun _ => o.admits_functions) frame
  have last := t.filter_eq_nil_of_shapes (fun _ => Options.admits_closing) frame
  rw [o.lines_eq]
  simp only [List.filter_append, List.filter_flatMap, first, second, third, last, List.nil_append,
    List.append_nil]

theorem filter_handlers {answers : List Bool} (names : List String)
    (told : t.Tells handlerShapes answers) :
    names.flatMap (fun name => (o.handlerLines name).filter t.holds) =
      names.flatMap fun name => kept answers (o.handlerLines name) := by
  congr 1
  funext name
  exact t.filter_of_shapes (o.fit_handler_lines name) told

theorem filter_slots {answer : Bool} (names : List String)
    (told : t.settled? slotShape = some answer) :
    (names.map o.slotLine).filter t.holds = if answer then names.map o.slotLine else [] := by
  have each : ∀ line ∈ names.map o.slotLine, t.holds line = answer := by
    intro line member
    rcases List.mem_map.1 member with ⟨name, -, rfl⟩
    exact t.sound _ _ _ (o.admits_slot_line name) told
  cases answer with
  | false => exact List.filter_eq_nil_iff.2 fun line member => by rw [each line member]; decide
  | true => exact List.filter_eq_self.2 each

theorem filter_arms {answers : List Bool} (names : List String)
    (told : t.Tells armShapes answers) :
    (names.flatMap o.armLines).filter t.holds =
      names.flatMap fun name => kept answers (o.armLines name) := by
  rw [List.filter_flatMap]
  congr 1
  funext name
  exact t.filter_of_shapes (o.fit_arm_lines name) told

theorem filter_dispatch_lines {idle matched fallback close : Bool} {arms : List Bool}
    (around : t.Tells dispatchShapes [idle, matched, fallback, close])
    (inside : t.Tells armShapes arms) (names others : List String) :
    (o.dispatchLines names others).filter t.holds =
      if names.isEmpty then kept [idle] ["        let _ = (event, data);"]
      else
        kept [matched] ["        match event \x7b"] ++
          (names.flatMap fun name => kept arms (o.armLines name)) ++
            (if others.isEmpty then [] else kept [fallback] [Options.fallbackLine]) ++
              kept [close] ["        \x7d"] := by
  have alone : ∀ text answer, t.settled? (.whole text) = some answer →
      [text].filter t.holds = kept [answer] [text] := by
    intro text answer settled
    have fit : List.Forall₂ Shape.Admits [.whole text] [text] := .cons rfl .nil
    exact t.filter_of_shapes fit (.cons settled .nil)
  rcases around with _ | ⟨first, _ | ⟨second, _ | ⟨third, _ | ⟨last, _⟩⟩⟩⟩
  unfold Options.dispatchLines
  split
  · exact alone _ _ first
  · rw [List.filter_append, List.filter_append, List.filter_append, alone _ _ second,
      alone _ _ last, t.filter_arms o names inside]
    split
    · rfl
    · rw [alone Options.fallbackLine _ third]

structure Answers (around handlers : List Bool) (slot : Bool) (arms : List Bool) : Prop where
  frame : t.Tells frameShapes (List.replicate 15 false)
  around : t.Tells dispatchShapes around
  handlers : t.Tells handlerShapes handlers
  slot : t.Tells [slotShape] [slot]
  arms : t.Tells armShapes arms

theorem settled_of_replicate {shapes : List Shape} {count : Nat}
    (tells : t.Tells shapes (List.replicate count false)) :
    ∀ shape ∈ shapes, t.settled? shape = some false := by
  induction shapes generalizing count with
  | nil => intro shape member; cases member
  | cons shape rest ih =>
      cases count with
      | zero => cases tells
      | succ count =>
          rw [List.replicate_succ] at tells
          cases tells with
          | cons settled others => exact List.forall_mem_cons.2 ⟨settled, ih others⟩

theorem Tells.either {t u : Test} {shapes : List Shape} {first second : List Bool}
    (tells : t.Tells shapes first) (tells' : u.Tells shapes second) :
    (t.either u).Tells shapes (List.zipWith or first second) := by
  induction tells generalizing second with
  | nil =>
      cases tells'
      exact .nil
  | cons settled _ ih =>
      cases tells' with
      | cons settled' others => exact .cons (settled_either settled settled') (ih others)

theorem Answers.either {t u : Test} {around around' handlers handlers' arms arms' : List Bool}
    {slot slot' : Bool} (answers : t.Answers around handlers slot arms)
    (answers' : u.Answers around' handlers' slot' arms') :
    (t.either u).Answers (List.zipWith or around around') (List.zipWith or handlers handlers')
      (slot || slot') (List.zipWith or arms arms') where
  frame := answers.frame.either answers'.frame
  around := answers.around.either answers'.around
  handlers := answers.handlers.either answers'.handlers
  slot := answers.slot.either answers'.slot
  arms := answers.arms.either answers'.arms

theorem filter_module {idle matched fallback close slot : Bool} {handlers arms : List Bool}
    (answers : t.Answers [idle, matched, fallback, close] handlers slot arms) (c : Classification) :
    (o.lines c).filter t.holds =
      (handled c).flatMap (fun name => kept handlers (o.handlerLines name)) ++
        (if slot then (handled c).map o.slotLine else []) ++
          if (handled c).isEmpty then kept [idle] ["        let _ = (event, data);"]
          else
            kept [matched] ["        match event \x7b"] ++
              ((handled c).flatMap fun name => kept arms (o.armLines name)) ++
                (if (skipped c).isEmpty then [] else kept [fallback] [Options.fallbackLine]) ++
                  kept [close] ["        \x7d"] := by
  have slots : t.settled? slotShape = some slot := by
    cases answers.slot with
    | cons settled _ => exact settled
  rw [t.filter_lines o c (t.settled_of_replicate answers.frame), t.filter_handlers o _ answers.handlers,
    t.filter_slots o _ slots, t.filter_dispatch_lines o answers.around answers.arms]

theorem filter_messages {slot : Bool} {handlers arms : List Bool}
    (answers : t.Answers [false, false, false, false] handlers slot arms) (c : Classification) :
    (o.lines c).filter t.holds =
      (handled c).flatMap (fun name => kept handlers (o.handlerLines name)) ++
        (if slot then (handled c).map o.slotLine else []) ++
          (handled c).flatMap fun name => kept arms (o.armLines name) := by
  rw [t.filter_module o answers c]
  simp only [kept_none, ite_self, List.append_nil, List.nil_append]
  congr 1
  split
  · next none => rw [List.isEmpty_iff.1 none, List.flatMap_nil]
  · rfl

theorem flat_map_silent (count : Nat) (names : List String) (lines : String → List String) :
    names.flatMap (fun name => kept (List.replicate count false) (lines name)) = [] := by
  rw [List.flatMap_eq_nil_iff]
  intro name _
  exact kept_silent count (lines name)

/-! A test may find its lines in the handler types only, in the slots or in the arms, and often it is
one for each message. -/

theorem filter_of_handlers {handlers : List Bool}
    (answers : t.Answers [false, false, false, false] handlers false (List.replicate 8 false))
    (c : Classification) :
    (o.lines c).filter t.holds =
      (handled c).flatMap fun name => kept handlers (o.handlerLines name) := by
  rw [t.filter_messages o answers c, flat_map_silent, if_neg Bool.false_ne_true, List.append_nil,
    List.append_nil]

theorem filter_of_slots
    (answers : t.Answers [false, false, false, false] (List.replicate 7 false) true
      (List.replicate 8 false)) (c : Classification) :
    (o.lines c).filter t.holds = (handled c).map o.slotLine := by
  rw [t.filter_messages o answers c, flat_map_silent, flat_map_silent, if_pos rfl, List.nil_append,
    List.append_nil]

theorem filter_of_arms {arms : List Bool}
    (answers : t.Answers [false, false, false, false] (List.replicate 7 false) false arms)
    (c : Classification) :
    (o.lines c).filter t.holds =
      (handled c).flatMap fun name => kept arms (o.armLines name) := by
  rw [t.filter_messages o answers c, flat_map_silent, if_neg Bool.false_ne_true, List.nil_append,
    List.nil_append]

theorem map_of_handlers {handlers : List Bool} {line : String → String}
    (answers : t.Answers [false, false, false, false] handlers false (List.replicate 8 false))
    (c : Classification) (each : ∀ name, kept handlers (o.handlerLines name) = [line name]) :
    (o.lines c).filter t.holds = (handled c).map line := by
  rw [t.filter_of_handlers o answers c, List.map_eq_flatMap]
  simp only [each]

theorem map_of_arms {arms : List Bool} {line : String → String}
    (answers : t.Answers [false, false, false, false] (List.replicate 7 false) false arms)
    (c : Classification) (each : ∀ name, kept arms (o.armLines name) = [line name]) :
    (o.lines c).filter t.holds = (handled c).map line := by
  rw [t.filter_of_arms o answers c, List.map_eq_flatMap]
  simp only [each]

end Test

end MessageSchema.Handlers
