import Mathlib.Data.List.Find
import MessageSchema.Proofs.RespeltTokens
import MessageSchema.Yaml.Document

/-!
The nodes of a text whose words are changed. The node reader looks at the marks among the tokens, which
stay as they are, and compares the names of anchors with each other. So from changed tokens it reads the
changed node as long as different names stay different. A scalar without quotes may be changed if it is
a string before and after; any other keeps its text, since what it means is read off its characters.
-/

namespace MessageSchema.Yaml

set_option autoImplicit false

open Text

variable {r : Respelling}

/-- A scalar that is the same value after the change or a string before and after it. -/
def Scalar.Kept (r : Respelling) (plain : Bool) (text : String) : Prop :=
  plain = true → respeltString r text = text ∨
    (Scalar.meaning text.toList = .string ∧ Scalar.meaning (respeltString r text).toList = .string)

/-- The name of an anchor or of what an alias refers to. -/
def Token.name? : Token → Option String
  | .anchor name => some name
  | .aliasOf name => some name
  | _ => none

/-- A token that the node reader reads alike before and after the change. -/
structure Token.Steady (r : Respelling) (named : String → Prop) (token : Token) : Prop where
  untagged : token.Untagged
  name : ∀ name, token.name? = some name → named name
  kept : ∀ plain text, token = .scalar plain text → Scalar.Kept r plain text

def NamesApart (r : Respelling) (named : String → Prop) : Prop :=
  ∀ first second, named first → named second → respeltString r first = respeltString r second →
    first = second

/-- A token that is nothing but a mark. -/
def Token.isMark : Token → Bool
  | .anchor _ => false
  | .aliasOf _ => false
  | .scalar _ _ => false
  | _ => true

theorem Token.respelt_of_is_mark {mark : Token} (isMark : mark.isMark = true) :
    mark.respelt r = mark := by
  cases mark with
  | anchor => cases isMark
  | aliasOf => cases isMark
  | scalar => cases isMark
  | _ => rfl

theorem Token.is_mark_respelt (token : Token) : (token.respelt r).isMark = token.isMark := by
  cases token <;> rfl

theorem Token.respelt_eq_iff {token mark : Token} (isMark : mark.isMark = true) :
    token.respelt r = mark ↔ token = mark := by
  constructor
  · intro same
    have isMark' : token.isMark = true := by rw [← is_mark_respelt (r := r), same, isMark]
    rw [← same, respelt_of_is_mark isMark']
  · rintro rfl
    exact respelt_of_is_mark isMark

theorem Token.contains_respelt {listed : List Token} (marks : listed.all Token.isMark = true)
    (token : Token) : listed.contains (token.respelt r) = listed.contains token := by
  induction listed with
  | nil => rfl
  | cons mark rest ih =>
      simp only [List.all_cons, Bool.and_eq_true] at marks
      have here : (token.respelt r == mark) = (token == mark) := by
        rw [Bool.eq_iff_iff, beq_iff_eq, beq_iff_eq]
        exact Token.respelt_eq_iff marks.1
      rw [List.contains_cons, List.contains_cons, here, ih marks.2]

namespace Node

mutual

def respelt (r : Respelling) : Node → Node
  | aliasOf target => aliasOf target
  | scalar anchor label plain text => scalar anchor label plain (respeltString r text)
  | sequence anchor label items => sequence anchor label (respeltItems r items)
  | mapping anchor label entries => mapping anchor label (respeltEntries r entries)

def respeltItems (r : Respelling) : List Node → List Node
  | [] => []
  | item :: rest => respelt r item :: respeltItems r rest

def respeltEntries (r : Respelling) : List (Node × Node) → List (Node × Node)
  | [] => []
  | (key, value) :: rest => (respelt r key, respelt r value) :: respeltEntries r rest

end

mutual

/-- A node without tags on its scalars, each of which is kept. -/
def Steady (r : Respelling) : Node → Prop
  | aliasOf _ => True
  | scalar _ label plain text => label = .none ∧ Scalar.Kept r plain text
  | sequence _ _ items => SteadyItems r items
  | mapping _ _ entries => SteadyEntries r entries

def SteadyItems (r : Respelling) : List Node → Prop
  | [] => True
  | item :: rest => Steady r item ∧ SteadyItems r rest

def SteadyEntries (r : Respelling) : List (Node × Node) → Prop
  | [] => True
  | (key, value) :: rest => (Steady r key ∧ Steady r value) ∧ SteadyEntries r rest

end

theorem respelt_string_empty : respeltString r "" = "" := by
  simp only [respeltString, String.toList_empty]
  rw [r.text_eq_nil_iff.2 rfl]

theorem respelt_empty : empty.respelt r = empty := by
  simp only [empty, respelt, respelt_string_empty]

namespace Source

/-- What is left to read of the changed text. -/
def respelt (r : Respelling) (s : Source) : Source where
  tokens := s.tokens.map (Token.respelt r)
  handles := s.handles
  anchors := s.anchors.map fun entry => (respeltString r entry.1, entry.2)

/-- All tokens to come are read alike, and the names of all anchors so far stay different. -/
structure Steady (r : Respelling) (named : String → Prop) (s : Source) : Prop where
  tokens : ∀ token ∈ s.tokens, token.Steady r named
  anchors : ∀ entry ∈ s.anchors, named entry.1

end Source

open Reader

/-- From the changed source the second reader reads the change of what the first one reads. -/
def Carries {α β : Type} (r : Respelling) (named : String → Prop) (change : α → β) (good : α → Prop)
    (m : Reader α) (m' : Reader β) : Prop :=
  ∀ s a t, s.Steady r named → m s = some (a, t) →
    t.Steady r named ∧ good a ∧ m' (s.respelt r) = some (change a, t.respelt r)

namespace Carries

variable {named : String → Prop} {α β α' β' : Type} {change : α → α'} {change' : β → β'}
  {good : α → Prop} {good' : β → Prop}

theorem bind {m : Reader α} {m' : Reader α'} {f : α → Reader β} {f' : α' → Reader β'}
    (first : Carries r named change good m m')
    (next : ∀ a, good a → Carries r named change' good' (f a) (f' (change a))) :
    Carries r named change' good' (m >>= f) (m' >>= f') := by
  intro s b t steady run
  obtain ⟨a, u, read, further⟩ := bind_eq_some_iff.1 run
  obtain ⟨between, fine, read'⟩ := first s a u steady read
  obtain ⟨after, whole, further'⟩ := next a fine u b t between further
  exact ⟨after, whole, bind_eq_some_iff.2 ⟨_, _, read', further'⟩⟩

theorem pure {a : α} {a' : α'} (fine : good a) (same : change a = a') :
    Carries r named change good (Pure.pure a) (Pure.pure a') := by
  intro s b t steady run
  cases run
  subst same
  exact ⟨steady, fine, rfl⟩

theorem map {m : Reader α} {m' : Reader α'} {g : α → β} {g' : α' → β'}
    (read : Carries r named change good m m')
    (step : ∀ a, good a → good' (g a) ∧ g' (change a) = change' (g a)) :
    Carries r named change' good' (g <$> m) (g' <$> m') := by
  rw [map_eq_pure_bind, map_eq_pure_bind]
  exact read.bind fun a fine => .pure (step a fine).1 (step a fine).2.symm

theorem refuse {m' : Reader α'} : Carries r named change good Reader.refuse m' :=
  fun _ _ _ _ run => nomatch run

theorem ite {condition condition' : Prop} [Decidable condition] [Decidable condition']
    {m n : Reader α} {m' n' : Reader α'} (same : condition' ↔ condition)
    (yes : condition → Carries r named change good m m')
    (no : ¬condition → Carries r named change good n n') :
    Carries r named change good (if condition then m else n) (if condition' then m' else n') := by
  by_cases holds : condition
  · rw [if_pos holds, if_pos (same.2 holds)]
    exact yes holds
  · rw [if_neg holds, if_neg (mt same.1 holds)]
    exact no holds

end Carries

section

variable {named : String → Prop}

theorem carries_peek :
    Carries r named (Option.map (Token.respelt r)) (fun next => ∀ token ∈ next, token.Steady r named)
      peek peek := by
  intro s next t steady run
  cases run
  refine ⟨steady, fun token first => steady.tokens token (List.mem_of_mem_head? first), ?_⟩
  simp only [peek, Source.respelt, List.head?_map]

theorem carries_skip : Carries r named id (fun _ => True) skip skip := by
  intro s a t steady run
  cases run
  refine ⟨⟨fun token member => steady.tokens token (List.mem_of_mem_drop member), steady.anchors⟩,
    trivial, ?_⟩
  simp only [skip, Source.respelt, List.map_drop, id]

theorem carries_is_next {listed : List Token} (marks : listed.all Token.isMark = true) :
    Carries r named id (fun _ => True) (isNext listed) (isNext listed) := by
  refine carries_peek.bind fun next _ => .pure trivial ?_
  cases next with
  | none => rfl
  | some token => exact (Token.contains_respelt marks token).symm

theorem carries_accept {token : Token} (mark : token.isMark = true) :
    Carries r named id (fun _ => True) (accept token) (accept token) := by
  refine (carries_is_next (by simp [mark])).bind fun found _ => .ite Iff.rfl ?_ ?_
  · exact fun _ => carries_skip.bind fun _ _ => .pure trivial rfl
  · exact fun _ => .pure trivial rfl

theorem carries_if_accepted {α α' : Type} {change : α → α'} {good : α → Prop} {yes no : Reader α}
    {yes' no' : Reader α'} {token : Token} (mark : token.isMark = true)
    (taken : Carries r named change good yes yes') (left : Carries r named change good no no') :
    Carries r named change good (do if ← accept token then yes else no)
      (do if ← accept token then yes' else no') :=
  (carries_accept mark).bind fun _ _ => .ite Iff.rfl (fun _ => taken) fun _ => left

theorem beq_respelt {s : Source} (apart : NamesApart r named) (steady : s.Steady r named) {name : String}
    (fine : named name) {entry : String × Nat} (member : entry ∈ s.anchors) :
    (respeltString r entry.1 == respeltString r name) = (entry.1 == name) := by
  rw [Bool.eq_iff_iff, beq_iff_eq, beq_iff_eq]
  exact ⟨apart _ _ (steady.anchors entry member) fine, fun same => by rw [same]⟩

theorem carries_anchor (apart : NamesApart r named) {name : String} (fine : named name) :
    Carries r named id (fun _ => True) (anchor name) (anchor (respeltString r name)) := by
  intro s number t steady run
  cases run
  have known : (s.respelt r).anchors.any (·.1 == respeltString r name) =
      s.anchors.any (·.1 == name) := by
    rw [Source.respelt, List.any_map, Bool.eq_iff_iff, List.any_eq_true, List.any_eq_true]
    refine exists_congr fun entry => and_congr_right fun member => ?_
    rw [Function.comp, beq_respelt apart steady fine member]
  refine ⟨⟨steady.tokens, ?_⟩, trivial, ?_⟩
  · intro entry member
    simp only at member
    split at member
    · obtain ⟨old, among, rfl⟩ := List.mem_map.1 member
      split
      · exact fine
      · exact steady.anchors old among
    · rcases List.mem_append.1 member with among | new
      · exact steady.anchors entry among
      · obtain rfl := List.mem_singleton.1 new
        exact fine
  · simp only [anchor, known]
    simp only [Source.respelt, List.length_map, id]
    split
    · simp only [List.map_map]
      congr 3
      apply List.map_congr_left
      intro entry member
      simp only [Function.comp, beq_respelt apart steady fine member]
      split <;> rfl
    · simp only [List.map_append, List.map_cons, List.map_nil]

theorem carries_target (apart : NamesApart r named) {name : String} (fine : named name) :
    Carries r named id (fun _ => True) (target name) (target (respeltString r name)) := by
  intro s number t steady run
  obtain ⟨entry, found, same⟩ := Option.map_eq_some_iff.1 run
  cases same
  have found' : (s.respelt r).anchors.find? (·.1 == respeltString r name) =
      some (respeltString r entry.1, entry.2) := by
    have each := List.find?_congr fun entry member => beq_respelt apart steady fine member
    rw [Source.respelt, List.find?_map]
    exact congrArg (Option.map _) (each.trans found)
  refine ⟨steady, trivial, ?_⟩
  rw [target, found', Option.map_some]
  rfl

theorem carries_number_of (apart : NamesApart r named) {name : Option String}
    (fine : ∀ given ∈ name, named given) :
    Carries r named id (fun _ => True) (numberOf name) (numberOf (name.map (respeltString r))) := by
  cases name with
  | none => exact .pure trivial rfl
  | some name => exact (carries_anchor apart (fine name rfl)).map fun _ _ => ⟨trivial, rfl⟩

theorem carries_label_of {tag : Option TagText.Written} (untagged : tag = none) :
    Carries r named id (· = Label.none) (labelOf tag) (labelOf tag) := by
  subst untagged
  exact .pure rfl rfl

def Reader.Properties.respelt (r : Respelling) (given : Properties) : Properties where
  anchor := given.anchor.map (respeltString r)
  tag := given.tag

/-- No tag is in front of a node. -/
theorem carries_properties :
    Carries r named (Reader.Properties.respelt r)
      (fun given => given.tag = none ∧ ∀ name ∈ given.anchor, named name) properties properties := by
  have nothing : Carries r named (Reader.Properties.respelt r)
      (fun given => given.tag = none ∧ ∀ name ∈ given.anchor, named name)
      (pure ⟨none, none⟩) (pure ⟨none, none⟩) := .pure ⟨rfl, by simp⟩ rfl
  refine carries_peek.bind fun next steady => ?_
  cases next with
  | none => exact nothing
  | some token =>
      cases token with
      | anchor name =>
          have fine : named name := (steady _ rfl).name name rfl
          have alone : Carries r named (Reader.Properties.respelt r)
              (fun given => given.tag = none ∧ ∀ name ∈ given.anchor, named name)
              (pure ⟨some name, none⟩) (pure ⟨some (respeltString r name), none⟩) :=
            .pure ⟨rfl, by simpa using fine⟩ rfl
          refine carries_skip.bind fun _ _ => carries_peek.bind fun next steady => ?_
          cases next with
          | none => exact alone
          | some token =>
              cases token with
              | tag written => exact absurd (steady _ rfl).untagged id
              | _ => exact alone
      | tag written => exact absurd (steady _ rfl).untagged id
      | _ => exact nothing

end

def respeltEntry (r : Respelling) (entry : Node × Node) : Node × Node :=
  (entry.1.respelt r, entry.2.respelt r)

def SteadyEntry (r : Respelling) (entry : Node × Node) : Prop :=
  entry.1.Steady r ∧ entry.2.Steady r

/-- Each reader of nodes reads the changed nodes from the changed source. -/
structure Carried (r : Respelling) (named : String → Prop) (fuel : Nat) : Prop where
  read : ∀ block unindented,
    Carries r named (Node.respelt r) (Node.Steady r) (read fuel block unindented)
      (read fuel block unindented)
  readUnless : ∀ stops block unindented, stops.all Token.isMark = true →
    Carries r named (Node.respelt r) (Node.Steady r) (readUnless fuel stops block unindented)
      (readUnless fuel stops block unindented)
  items : ∀ stops closed, stops.all Token.isMark = true →
    Carries r named (respeltItems r) (SteadyItems r) (items fuel stops closed)
      (items fuel stops closed)
  entries : Carries r named (respeltEntries r) (SteadyEntries r) (entries fuel) (entries fuel)
  flowItems : ∀ first,
    Carries r named (respeltItems r) (SteadyItems r) (flowItems fuel first) (flowItems fuel first)
  flowPair : Carries r named (respeltEntry r) (SteadyEntry r) (flowPair fuel) (flowPair fuel)
  flowEntries : ∀ first,
    Carries r named (respeltEntries r) (SteadyEntries r) (flowEntries fuel first)
      (flowEntries fuel first)

section

variable {named : String → Prop} {fuel : Nat}

theorem carried_zero : Carried r named 0 :=
  ⟨fun _ _ => by rw [read]; exact .refuse, fun _ _ _ _ => by rw [readUnless]; exact .refuse,
    fun _ _ _ => by rw [items]; exact .refuse, by rw [entries]; exact .refuse,
    fun _ => by rw [flowItems]; exact .refuse, by rw [flowPair]; exact .refuse,
    fun _ => by rw [flowEntries]; exact .refuse⟩

theorem steady_missing : Node.Steady r (scalar none .none true "") :=
  ⟨rfl, fun _ => .inl respelt_string_empty⟩

theorem carries_missing : Carries r named (Node.respelt r) (Node.Steady r) (pure empty) (pure empty) :=
  .pure steady_missing respelt_empty

theorem carried_read_unless (carried : Carried r named fuel) (stops : List Token)
    (block unindented : Bool) (marks : stops.all Token.isMark = true) :
    Carries r named (Node.respelt r) (Node.Steady r) (readUnless (fuel + 1) stops block unindented)
      (readUnless (fuel + 1) stops block unindented) := by
  rw [readUnless]
  refine (carries_is_next marks).bind fun found _ => .ite Iff.rfl ?_ ?_
  · exact fun _ => carries_missing
  · exact fun _ => carried.read block unindented

theorem carries_cons {m : Reader (List Node)} {item : Node} (steady : item.Steady r)
    (rest : Carries r named (respeltItems r) (SteadyItems r) m m) :
    Carries r named (respeltItems r) (SteadyItems r) ((item :: ·) <$> m)
      ((item.respelt r :: ·) <$> m) :=
  rest.map fun _ fine => ⟨⟨steady, fine⟩, rfl⟩

theorem carries_cons_entry {m : Reader (List (Node × Node))} {key value : Node}
    (steady : key.Steady r) (steady' : value.Steady r)
    (rest : Carries r named (respeltEntries r) (SteadyEntries r) m m) :
    Carries r named (respeltEntries r) (SteadyEntries r) (((key, value) :: ·) <$> m)
      (((key.respelt r, value.respelt r) :: ·) <$> m) :=
  rest.map fun _ fine => ⟨⟨⟨steady, steady'⟩, fine⟩, rfl⟩

theorem carries_block_end {α α' : Type} {change : α → α'} {good : α → Prop} {given : α} {given' : α'}
    (fine : good given) (same : change given = given') :
    Carries r named change good (do if ← accept .blockEnd then pure given else refuse)
      (do if ← accept .blockEnd then pure given' else refuse) :=
  carries_if_accepted rfl (.pure fine same) .refuse

theorem carried_items (carried : Carried r named fuel) (stops : List Token) (closed : Bool)
    (marks : stops.all Token.isMark = true) :
    Carries r named (respeltItems r) (SteadyItems r) (items (fuel + 1) stops closed)
      (items (fuel + 1) stops closed) := by
  rw [items]
  refine carries_if_accepted rfl ?_ (.ite Iff.rfl ?_ ?_)
  · refine (carried.readUnless stops true false marks).bind fun item steady => ?_
    exact carries_cons steady (carried.items stops closed marks)
  · exact fun _ => .pure trivial rfl
  · exact fun _ => carries_block_end trivial rfl

theorem carries_value {m : Reader Node} (read : Carries r named (Node.respelt r) (Node.Steady r) m m)
    {α α' : Type} {change : α → α'} {good : α → Prop} {next : Node → Reader α}
    {next' : Node → Reader α'}
    (further : ∀ body, body.Steady r →
      Carries r named change good (next body) (next' (body.respelt r))) :
    Carries r named change good (do if ← accept .value then m >>= next else pure empty >>= next)
      (do if ← accept .value then m >>= next' else pure empty >>= next') :=
  carries_if_accepted rfl (read.bind further) (carries_missing.bind further)

theorem carried_entries (carried : Carried r named fuel) :
    Carries r named (respeltEntries r) (SteadyEntries r) (entries (fuel + 1)) (entries (fuel + 1)) := by
  have node := carried.readUnless [.key, .value, .blockEnd] true true rfl
  rw [entries]
  refine carries_if_accepted rfl ?_ (carries_block_end trivial rfl)
  refine node.bind fun key steady => carries_value node fun body steady' => ?_
  exact carries_cons_entry steady steady' carried.entries

theorem carried_flow_pair (carried : Carried r named fuel) :
    Carries r named (respeltEntry r) (SteadyEntry r) (flowPair (fuel + 1)) (flowPair (fuel + 1)) := by
  have further : ∀ key : Node, key.Steady r → Carries r named (respeltEntry r) (SteadyEntry r)
      (do if ← accept .value then
            let value ← readUnless fuel [.comma, .flowSequenceEnd] false false
            pure (key, value)
          else pure (key, empty))
      (do if ← accept .value then
            let value ← readUnless fuel [.comma, .flowSequenceEnd] false false
            pure (key.respelt r, value)
          else pure (key.respelt r, empty)) := by
    intro key steady
    refine carries_if_accepted rfl ?_ (.pure ⟨steady, steady_missing⟩ ?_)
    · exact (carried.readUnless _ false false rfl).bind fun value steady' => .pure ⟨steady, steady'⟩ rfl
    · exact congrArg (Prod.mk _) respelt_empty
  rw [flowPair]
  refine (carries_is_next rfl).bind fun found _ => .ite Iff.rfl ?_ ?_
  · exact fun _ => carries_skip.bind fun _ _ => carries_missing.bind further
  · exact fun _ => (carried.read false false).bind further

/-- The marks between the parts of a collection in brackets. -/
theorem carries_separated (first : Bool) {α α' : Type} {change : α → α'} {good : α → Prop}
    {m : Reader α} {m' : Reader α'} (read : Carries r named change good m m') :
    Carries r named change good
      (if first = true then do
        let separated ← pure true
        if (!separated) = true then refuse else m
      else do
        let separated ← accept .comma
        if (!separated) = true then refuse else m)
      (if first = true then do
        let separated ← pure true
        if (!separated) = true then refuse else m'
      else do
        let separated ← accept .comma
        if (!separated) = true then refuse else m') := by
  have behind : ∀ separated : Bool, True → Carries r named change good
      (if (!separated) = true then refuse else m) (if (!separated) = true then refuse else m') :=
    fun separated _ => .ite Iff.rfl (fun _ => .refuse) fun _ => read
  refine .ite Iff.rfl ?_ ?_
  · have first : Carries r named id (fun _ => True) (pure true) (pure true) := .pure trivial rfl
    exact fun _ => first.bind behind
  · exact fun _ => (carries_accept rfl).bind behind

theorem carried_flow_items (carried : Carried r named fuel) (first : Bool) :
    Carries r named (respeltItems r) (SteadyItems r) (flowItems (fuel + 1) first)
      (flowItems (fuel + 1) first) := by
  rw [flowItems]
  refine carries_if_accepted rfl (.pure trivial rfl) (carries_separated first ?_)
  refine carries_if_accepted rfl ?_ (carries_if_accepted rfl (.pure trivial rfl) ?_)
  · refine carried.flowPair.bind fun entry steady => ?_
    have pair : (mapping none .none [entry]).Steady r := ⟨steady, trivial⟩
    exact carries_cons pair (carried.flowItems false)
  · exact (carried.read false false).bind fun item steady =>
      carries_cons steady (carried.flowItems false)

theorem carried_flow_entries (carried : Carried r named fuel) (first : Bool) :
    Carries r named (respeltEntries r) (SteadyEntries r) (flowEntries (fuel + 1) first)
      (flowEntries (fuel + 1) first) := by
  rw [flowEntries]
  refine carries_if_accepted rfl (.pure trivial rfl) (carries_separated first ?_)
  refine carries_if_accepted rfl ?_ (carries_if_accepted rfl (.pure trivial rfl) ?_)
  · refine (carried.readUnless _ false false rfl).bind fun key steady => ?_
    refine carries_value (carried.readUnless _ false false rfl) fun body steady' => ?_
    exact carries_cons_entry steady steady' (carried.flowEntries false)
  · refine (carried.read false false).bind fun key steady => ?_
    have entry := carries_cons_entry steady steady_missing (carried.flowEntries false)
    rwa [← empty, respelt_empty] at entry

/-- A collection whose parts are read behind its opening mark. -/
theorem carries_sequence {m : Reader (List Node)} (anchor : Option Nat) (label : Label)
    (read : Carries r named (respeltItems r) (SteadyItems r) m m) :
    Carries r named (Node.respelt r) (Node.Steady r) (sequence anchor label <$> m)
      (sequence anchor label <$> m) :=
  read.map fun _ steady => ⟨steady, rfl⟩

theorem carries_mapping {m : Reader (List (Node × Node))} (anchor : Option Nat) (label : Label)
    (read : Carries r named (respeltEntries r) (SteadyEntries r) m m) :
    Carries r named (Node.respelt r) (Node.Steady r) (mapping anchor label <$> m)
      (mapping anchor label <$> m) :=
  read.map fun _ steady => ⟨steady, rfl⟩

theorem is_mark_iff {next : Option Token} {mark : Token} (isMark : mark.isMark = true) (may : Bool) :
    (may && next.map (Token.respelt r) == some mark) = true ↔ (may && next == some mark) = true := by
  cases next with
  | none => exact Iff.rfl
  | some token =>
      simp only [Option.map_some, Bool.and_eq_true, beq_iff_eq, Option.some.injEq]
      exact and_congr_right fun _ => Token.respelt_eq_iff isMark

theorem carries_numbered (apart : NamesApart r named) {given : Properties}
    (fine : ∀ name ∈ given.anchor, named name) {f f' : Option Nat → Reader Node}
    (read : ∀ anchor, Carries r named (Node.respelt r) (Node.Steady r) (f anchor) (f' anchor)) :
    Carries r named (Node.respelt r) (Node.Steady r) (numberOf given.anchor >>= f)
      (numberOf (given.respelt r).anchor >>= f') :=
  (carries_number_of apart fine).bind fun anchor _ => read anchor

/-- A block collection, or a node of which only the anchor is there. -/
theorem carried_block (apart : NamesApart r named) (carried : Carried r named fuel) {given : Properties}
    (fine : ∀ name ∈ given.anchor, named name) (block unindented : Bool) (next : Option Token) :
    Carries r named (Node.respelt r) (Node.Steady r)
      (if unindented && next == some .item then do
        let anchor ← numberOf given.anchor
        sequence anchor .none <$> items fuel [.item, .key, .value, .blockEnd] false
      else if block && next == some .blockSequence then do
        skip
        let anchor ← numberOf given.anchor
        sequence anchor .none <$> items fuel [.item, .blockEnd] true
      else if block && next == some .blockMapping then do
        skip
        let anchor ← numberOf given.anchor
        mapping anchor .none <$> entries fuel
      else if given.anchor.isSome || given.tag.isSome then do
        pure (scalar (← numberOf given.anchor) .none true "")
      else refuse)
      (if unindented && next.map (Token.respelt r) == some .item then do
        let anchor ← numberOf (given.respelt r).anchor
        sequence anchor .none <$> items fuel [.item, .key, .value, .blockEnd] false
      else if block && next.map (Token.respelt r) == some .blockSequence then do
        skip
        let anchor ← numberOf (given.respelt r).anchor
        sequence anchor .none <$> items fuel [.item, .blockEnd] true
      else if block && next.map (Token.respelt r) == some .blockMapping then do
        skip
        let anchor ← numberOf (given.respelt r).anchor
        mapping anchor .none <$> entries fuel
      else if (given.respelt r).anchor.isSome || (given.respelt r).tag.isSome then do
        pure (scalar (← numberOf (given.respelt r).anchor) .none true "")
      else refuse) := by
  refine .ite (is_mark_iff rfl _) (fun _ => ?_) fun _ => .ite (is_mark_iff rfl _) (fun _ => ?_)
    fun _ => .ite (is_mark_iff rfl _) (fun _ => ?_) fun _ => .ite ?_ (fun _ => ?_) fun _ => .refuse
  · exact carries_numbered apart fine fun anchor =>
      carries_sequence anchor _ (carried.items _ false rfl)
  · exact carries_skip.bind fun _ _ => carries_numbered apart fine fun anchor =>
      carries_sequence anchor _ (carried.items _ true rfl)
  · exact carries_skip.bind fun _ _ => carries_numbered apart fine fun anchor =>
      carries_mapping anchor _ carried.entries
  · simp only [Properties.respelt, Option.isSome_map]
  · refine carries_numbered apart fine fun anchor => .pure steady_missing ?_
    rw [Node.respelt, respelt_string_empty]

theorem carried_read (apart : NamesApart r named) (carried : Carried r named fuel)
    (block unindented : Bool) :
    Carries r named (Node.respelt r) (Node.Steady r) (read (fuel + 1) block unindented)
      (read (fuel + 1) block unindented) := by
  rw [read]
  refine carries_peek.bind fun next steady => ?_
  split
  · next name =>
      have fine : named name := (steady _ rfl).name name rfl
      exact carries_skip.bind fun _ _ => (carries_target apart fine).map fun _ _ => ⟨trivial, rfl⟩
  · next noAlias =>
    split
    · next name same =>
        obtain ⟨token, rfl, changed⟩ := Option.map_eq_some_iff.1 same
        cases token with
        | aliasOf name => exact absurd rfl (noAlias name)
        | _ => cases changed
    · refine carries_properties.bind fun given fine => ?_
      refine (carries_label_of fine.1).bind fun label unlabelled => carries_peek.bind fun next steady => ?_
      subst unlabelled
      have blocks := carried_block apart carried fine.2 block unindented
      cases next with
      | none => exact blocks none
      | some token =>
          cases token with
          | scalar plain text =>
              refine carries_skip.bind fun _ _ => ?_
              have kept := (steady _ rfl).kept plain text rfl
              refine carries_numbered apart fine.2 fun anchor => ?_
              have whole : (scalar anchor .none plain text).Steady r := ⟨rfl, kept⟩
              exact .pure whole rfl
          | flowSequence =>
              exact carries_skip.bind fun _ _ => carries_numbered apart fine.2 fun anchor =>
                carries_sequence anchor _ (carried.flowItems true)
          | flowMapping =>
              exact carries_skip.bind fun _ _ => carries_numbered apart fine.2 fun anchor =>
                carries_mapping anchor _ (carried.flowEntries true)
          | _ => exact blocks (some _)

theorem carried (apart : NamesApart r named) (fuel : Nat) : Carried r named fuel := by
  induction fuel with
  | zero => exact carried_zero
  | succ fuel ih =>
      exact ⟨carried_read apart ih, carried_read_unless ih, carried_items ih, carried_entries ih,
        carried_flow_items ih, carried_flow_pair ih, carried_flow_entries ih⟩

end

end Node

namespace Document

def respelt (r : Respelling) (d : Document) : Document := ⟨d.root.map (Node.respelt r)⟩

def Steady (r : Respelling) (d : Document) : Prop := ∀ root ∈ d.root, root.Steady r

variable {named : String → Prop} {tokens : List Token} {d : Document}

theorem ends_map (tokens : List Token) : ends (tokens.map (Token.respelt r)) = ends tokens := by
  rw [ends, List.all_map, Bool.eq_iff_iff, List.all_eq_true, ends, List.all_eq_true]
  refine forall₂_congr fun token _ => ?_
  rw [Function.comp, beq_iff_eq, beq_iff_eq]
  exact Token.respelt_eq_iff rfl

theorem is_directive_eq_false {token : Token} (untagged : token.Untagged) :
    isDirective token = false := by
  cases token with
  | version => exact untagged.elim
  | handle => exact untagged.elim
  | _ => rfl

theorem read_root_respelt (apart : NamesApart r named) {handles : List (String × TagText.Spelling)}
    (steady : ∀ token ∈ tokens, token.Steady r named) (read : readRoot? handles tokens = some d) :
    readRoot? handles (tokens.map (Token.respelt r)) = some (d.respelt r) ∧ d.Steady r := by
  obtain ⟨⟨root, after⟩, run, read⟩ := Option.bind_eq_some_iff.1 read
  have source : Node.Source.Steady r named ⟨tokens, handles, []⟩ := ⟨steady, by simp⟩
  obtain ⟨_, whole, run'⟩ := (Node.carried apart (nodeFuel tokens)).read true false _ _ _ source run
  have fuel : nodeFuel (tokens.map (Token.respelt r)) = nodeFuel tokens := by
    rw [nodeFuel, List.length_map, nodeFuel]
  have start : Node.Source.respelt r ⟨tokens, handles, []⟩ =
      ⟨tokens.map (Token.respelt r), handles, []⟩ := rfl
  simp only at read
  split at read
  · next ended =>
      cases read
      refine ⟨?_, fun root same => Option.some.inj same ▸ whole⟩
      rw [readRoot?, fuel, ← start]
      refine Option.bind_eq_some_iff.2 ⟨_, run', ?_⟩
      have ended' : ends (after.respelt r).tokens = true := (ends_map after.tokens).trans ended
      simp only [ended', if_true]
      rfl
  · cases read

def ofContent? (content : List Token) : Option Document :=
  match content with
  | [] => some ⟨some Node.empty⟩
  | .documentEnd :: after => if ends after then some ⟨some Node.empty⟩ else none
  | _ => readRoot? defaultHandles content

theorem read_explicit_cons {first : Token} {rest : List Token} (plain : isDirective first = false) :
    readExplicit? (first :: rest) = if first = .documentStart then ofContent? rest else none := by
  simp only [readExplicit?, List.takeWhile_cons, List.dropWhile_cons, plain]
  cases first <;> rfl

theorem steady_empty : Steady r ⟨some Node.empty⟩ :=
  fun _ same => Option.some.inj same ▸ Node.steady_missing

theorem respelt_some_empty : respelt r ⟨some Node.empty⟩ = ⟨some Node.empty⟩ := by
  rw [respelt, Option.map_some, Node.respelt_empty]

theorem of_content_respelt (apart : NamesApart r named)
    (steady : ∀ token ∈ tokens, token.Steady r named) (read : ofContent? tokens = some d) :
    ofContent? (tokens.map (Token.respelt r)) = some (d.respelt r) ∧ d.Steady r := by
  cases tokens with
  | nil =>
      cases read
      exact ⟨congrArg some respelt_some_empty.symm, steady_empty⟩
  | cons first after =>
      cases first with
      | documentEnd =>
          rw [ofContent?] at read
          split at read
          · next ended =>
              cases read
              have kept : Token.respelt r .documentEnd = .documentEnd := rfl
              refine ⟨?_, steady_empty⟩
              rw [List.map_cons, kept, ofContent?, ends_map, if_pos ended, respelt_some_empty]
          · cases read
      | _ => exact read_root_respelt apart steady read

/-- From changed tokens the changed document is read. -/
theorem of_tokens_respelt (apart : NamesApart r named)
    (steady : ∀ token ∈ tokens, token.Steady r named) (read : ofTokens? tokens = some d) :
    ofTokens? (tokens.map (Token.respelt r)) = some (d.respelt r) ∧ d.Steady r := by
  cases tokens with
  | nil =>
      cases read
      exact ⟨rfl, by simp [Steady]⟩
  | cons first rest =>
      have plain := is_directive_eq_false (steady first (by simp)).untagged
      have plain' : isDirective (first.respelt r) = false := by
        rw [← plain]
        cases first <;> rfl
      by_cases start : first = .documentStart
      · subst start
        have behind : ∀ token ∈ rest, token.Steady r named :=
          fun token member => steady token (List.mem_cons_of_mem _ member)
        have opened : ∀ content, ofTokens? (.documentStart :: content) = ofContent? content :=
          fun content => read_explicit_cons rfl
        rw [opened] at read
        have kept : Token.respelt r .documentStart = .documentStart := rfl
        rw [List.map_cons, kept, opened]
        exact of_content_respelt apart behind read
      · have bare : ∀ {token : Token} (content : List Token), isDirective token = false →
            token ≠ .documentStart → ofTokens? (token :: content) =
              readRoot? defaultHandles (token :: content) := by
          intro token content plain other
          rw [ofTokens?, plain, Bool.false_or, if_neg (by simpa using other)]
        rw [bare rest plain start] at read
        have changed := read_root_respelt apart steady read
        rw [List.map_cons] at changed ⊢
        rw [bare _ plain' (mt (Token.respelt_eq_iff rfl).1 start)]
        exact changed

end Document

end MessageSchema.Yaml
