import MessageSchema.Yaml.Document

/-!
The order of tokens in a document. The node reader has no notion of brackets or blocks beyond the calls
it makes, yet it accepts no comma outside brackets and, behind the end of a block, nothing that begins
a node. Both follow from where a token may stand: how many brackets are open before it, and whether it
comes right behind the end of a block. One arrangement escapes this. Where a key in square brackets is
announced and missing, the reader takes the token after it along, which may be the bracket that closes.
-/

namespace MessageSchema.Yaml

set_option autoImplicit false

def mayFollowEnd (token : Token) : Bool :=
  [Token.key, .value, .item, .blockEnd, .documentEnd].contains token

/-- Where a token stands: how many brackets are open, and whether a block has just ended. -/
structure Place where
  depth : Nat
  closed : Bool

namespace Place

/-- The place behind a token that may stand here. -/
def step? (p : Place) (token : Token) : Option Place :=
  if p.closed && !mayFollowEnd token then none
  else
    match token with
    | .flowSequence => some ⟨p.depth + 1, false⟩
    | .flowMapping => some ⟨p.depth + 1, false⟩
    | .flowSequenceEnd => if p.depth = 0 then none else some ⟨p.depth - 1, false⟩
    | .flowMappingEnd => if p.depth = 0 then none else some ⟨p.depth - 1, false⟩
    | .comma => if p.depth = 0 then none else some ⟨p.depth, false⟩
    | .blockEnd => some ⟨p.depth, true⟩
    | _ => some ⟨p.depth, false⟩

def walk? (p : Place) (tokens : List Token) : Option Place := tokens.foldlM step? p

theorem walk_append (p : Place) (front back : List Token) :
    p.walk? (front ++ back) = (p.walk? front).bind (walk? · back) := by
  rw [walk?, List.foldlM_append]
  rfl

theorem walk_cons (p : Place) (token : Token) (rest : List Token) :
    p.walk? (token :: rest) = (p.step? token).bind (walk? · rest) := by
  rw [walk?, List.foldlM_cons]
  rfl

theorem may_follow_end_of_walk {p q : Place} {front back : List Token} {token : Token}
    (walked : p.walk? (front ++ .blockEnd :: token :: back) = some q) : mayFollowEnd token = true := by
  rw [walk_append] at walked
  obtain ⟨here, _, walked⟩ := Option.bind_eq_some_iff.1 walked
  rw [walk_cons] at walked
  obtain ⟨behind, ended, walked⟩ := Option.bind_eq_some_iff.1 walked
  rw [walk_cons] at walked
  obtain ⟨_, step, _⟩ := Option.bind_eq_some_iff.1 walked
  unfold step? at ended
  split at ended
  · cases ended
  · cases ended
    unfold step? at step
    split at step
    · cases step
    · next allowed => simpa using allowed

end Place

def isOpening (token : Token) : Bool := token == .flowSequence || token == .flowMapping

def isClosing (token : Token) : Bool := token == .flowSequenceEnd || token == .flowMappingEnd

def openings (tokens : List Token) : Nat := tokens.countP isOpening

def closings (tokens : List Token) : Nat := tokens.countP isClosing

namespace Place

theorem depth_of_step {p q : Place} {token : Token} (step : p.step? token = some q) :
    q.depth + closings [token] = p.depth + openings [token] := by
  unfold step? at step
  split at step
  · cases step
  · cases token with
    | flowSequence => cases step; rfl
    | flowMapping => cases step; rfl
    | flowSequenceEnd =>
        simp only at step
        split at step
        · cases step
        · cases step
          simp [openings, closings, isOpening, isClosing]
          omega
    | flowMappingEnd =>
        simp only at step
        split at step
        · cases step
        · cases step
          simp [openings, closings, isOpening, isClosing]
          omega
    | comma =>
        simp only at step
        split at step
        · cases step
        · cases step
          rfl
    | _ => cases step; rfl

theorem depth_of_walk {p q : Place} {tokens : List Token} (walked : p.walk? tokens = some q) :
    q.depth + closings tokens = p.depth + openings tokens := by
  induction tokens generalizing p with
  | nil =>
      cases walked
      rfl
  | cons token rest ih =>
      rw [walk_cons] at walked
      obtain ⟨here, step, walked⟩ := Option.bind_eq_some_iff.1 walked
      have first := depth_of_step step
      have others := ih walked
      have both : ∀ test : Token → Bool, (token :: rest).countP test =
          [token].countP test + rest.countP test := by
        intro test
        rw [← List.countP_append]
        rfl
      rw [closings, openings, both, both]
      simp only [closings, openings] at first others
      omega

/-- A comma stands between brackets. -/
theorem closings_lt_openings_of_walk {q : Place} {front back : List Token}
    (walked : walk? ⟨0, false⟩ (front ++ .comma :: back) = some q) :
    closings front < openings front := by
  rw [walk_append] at walked
  obtain ⟨here, before, walked⟩ := Option.bind_eq_some_iff.1 walked
  rw [walk_cons] at walked
  obtain ⟨_, step, _⟩ := Option.bind_eq_some_iff.1 walked
  have depth := depth_of_walk before
  have inside : here.depth ≠ 0 := by
    rintro none
    simp [step?, none] at step
  simp only at depth
  omega

end Place

/-- No key is announced right before a closing square bracket. -/
def Paired (tokens : List Token) : Prop :=
  ∀ front back, tokens ≠ front ++ .key :: .flowSequenceEnd :: back

namespace Node

open Reader

theorem bind_eq_some_iff {α β : Type} {m : Reader α} {f : α → Reader β} {s t : Source} {b : β} :
    (m >>= f) s = some (b, t) ↔ ∃ a u, m s = some (a, u) ∧ f a u = some (b, t) := by
  have unfolded : (m >>= f) s = (m s).bind fun read => f read.1 read.2 := rfl
  rw [unfolded, Option.bind_eq_some_iff]
  exact ⟨fun ⟨⟨a, u⟩, first, next⟩ => ⟨a, u, first, next⟩,
    fun ⟨a, u, first, next⟩ => ⟨⟨a, u⟩, first, next⟩⟩

/-- Wherever a reader starts so, what it reads and where it stops are such. -/
def Triple {α : Type} (before : Source → Prop) (m : Reader α) (after : α → Source → Prop) : Prop :=
  ∀ s a t, before s → m s = some (a, t) → after a t

namespace Triple

variable {α β : Type} {before : Source → Prop} {m : Reader α} {f : α → Reader β}

theorem bind {between : α → Source → Prop} {after : β → Source → Prop}
    (first : Triple before m between) (next : ∀ a, Triple (between a) (f a) after) :
    Triple before (m >>= f) after := by
  intro s b t start run
  obtain ⟨a, u, read, further⟩ := bind_eq_some_iff.1 run
  exact next a u b t (first s a u start read) further

theorem map {g : α → β} {after : β → Source → Prop} (read : Triple before m fun a => after (g a)) :
    Triple before (g <$> m) after := by
  intro s b t start run
  obtain ⟨⟨a, u⟩, first, same⟩ := Option.bind_eq_some_iff.1 run
  cases same
  exact read s a t start first

theorem pure {a : α} {after : α → Source → Prop} (holds : ∀ s, before s → after a s) :
    Triple before (Pure.pure a) after := by
  intro s b t start run
  cases run
  exact holds s start

theorem refuse {after : α → Source → Prop} : Triple before Reader.refuse after :=
  fun _ _ _ _ run => nomatch run

theorem weaken {before' : Source → Prop} {after after' : α → Source → Prop}
    (read : Triple before' m after') (start : ∀ s, before s → before' s)
    (stop : ∀ a s, after' a s → after a s) : Triple before m after :=
  fun s a t holds run => stop a t (read s a t (start s holds) run)

theorem of_exists {ι : Type} {before : ι → Source → Prop} {after : α → Source → Prop}
    (each : ∀ i, Triple (before i) m after) : Triple (fun s => ∃ i, before i s) m after :=
  fun s a t ⟨i, start⟩ run => each i s a t start run

theorem ite {after : α → Source → Prop} {condition : Prop} [Decidable condition] {n : Reader α}
    (yes : condition → Triple before m after) (no : ¬condition → Triple before n after) :
    Triple before (if condition then m else n) after := by
  split
  · next holds => exact yes holds
  · next fails => exact no fails

end Triple

/-- The reader has got to a place among the tokens of a document. -/
def At (tokens : List Token) (p : Place) (s : Source) : Prop :=
  ∃ front, tokens = front ++ s.tokens ∧ Place.walk? ⟨0, false⟩ front = some p

section

variable {tokens : List Token} {p q : Place}

theorem At.drop {s : Source} {token : Token} (here : At tokens p s)
    (next : s.tokens.head? = some token) (step : p.step? token = some q) :
    At tokens q { s with tokens := s.tokens.drop 1 } := by
  obtain ⟨front, parts, walked⟩ := here
  obtain ⟨rest, begun⟩ := List.head?_eq_some_iff.1 next
  refine ⟨front ++ [token], ?_, ?_⟩
  · rw [parts, begun, List.append_assoc]
    rfl
  · rw [Place.walk_append, walked, Option.bind_some, Place.walk_cons, step]
    rfl

theorem triple_peek {before : Source → Prop} :
    Triple before peek fun next s => before s ∧ s.tokens.head? = next := by
  intro s a t start run
  cases run
  exact ⟨start, rfl⟩

theorem triple_skip {token : Token} (step : p.step? token = some q) :
    Triple (fun s => At tokens p s ∧ s.tokens.head? = some token) skip fun _ => At tokens q := by
  intro s a t start run
  cases run
  exact start.1.drop start.2 step

theorem triple_is_next {before : Source → Prop} (listed : List Token) :
    Triple before (isNext listed) fun found s =>
      before s ∧ found = s.tokens.head?.any listed.contains := by
  refine triple_peek.bind fun next => .pure ?_
  rintro s ⟨start, rfl⟩
  exact ⟨start, rfl⟩

theorem triple_accept (token : Token) (step : p.step? token = some q) :
    Triple (At tokens p) (accept token) fun found s =>
      if found then At tokens q s else At tokens p s ∧ s.tokens.head? ≠ some token := by
  refine (triple_is_next [token]).bind fun found => .ite ?_ ?_
  · rintro rfl
    refine Triple.bind (fun s a t start run => triple_skip step s a t ⟨start.1, ?_⟩ run) fun _ =>
      .pure fun s here => here
    cases first : s.tokens.head? with
    | none => simp [first] at start
    | some next => simpa [first] using start.2
  · intro other
    refine .pure fun s start => ⟨start.1, ?_⟩
    rintro first
    exact other (start.2.trans (by simp [first]))

theorem triple_anchor (name : String) : Triple (At tokens p) (anchor name) fun _ => At tokens p := by
  rintro s a t ⟨front, parts, walked⟩ run
  cases run
  exact ⟨front, parts, walked⟩

theorem triple_number_of (name : Option String) :
    Triple (At tokens p) (numberOf name) fun _ => At tokens p := by
  cases name with
  | none => exact .pure fun s here => here
  | some name => exact Triple.map (triple_anchor name)

theorem triple_target (name : String) : Triple (At tokens p) (target name) fun _ => At tokens p := by
  intro s a t here run
  obtain ⟨entry, _, same⟩ := Option.map_eq_some_iff.1 run
  cases same
  exact here

theorem triple_label_of (tag : Option TagText.Written) :
    Triple (At tokens p) (labelOf tag) fun _ => At tokens p := by
  cases tag with
  | none => exact .pure fun s here => here
  | some written =>
      intro s a t here run
      simp only [labelOf, label] at run
      split at run
      · cases run
        exact here
      · obtain ⟨entry, _, same⟩ := Option.map_eq_some_iff.1 run
        cases same
        exact here

theorem triple_properties {depth : Nat} :
    Triple (At tokens ⟨depth, false⟩) properties fun _ => At tokens ⟨depth, false⟩ := by
  have skipped : ∀ {token : Token} {α : Type} {given : α},
      Place.step? ⟨depth, false⟩ token = some ⟨depth, false⟩ →
      Triple (fun s => At tokens ⟨depth, false⟩ s ∧ s.tokens.head? = some token)
        (do skip; pure given) fun _ => At tokens ⟨depth, false⟩ :=
    fun step => (triple_skip step).bind fun _ => .pure fun s here => here
  refine triple_peek.bind fun next => ?_
  split
  · next name =>
      refine (triple_skip (by rfl)).bind fun _ => triple_peek.bind fun next => ?_
      split
      · exact skipped (by rfl)
      · exact .pure fun s here => here.1
  · next written =>
      refine (triple_skip (by rfl)).bind fun _ => triple_peek.bind fun next => ?_
      split
      · exact skipped (by rfl)
      · exact .pure fun s here => here.1
  · exact .pure fun s here => here.1

theorem triple_if_accepted {α : Type} {yes no : Reader α} {after : α → Source → Prop} (token : Token)
    (step : p.step? token = some q) (taken : Triple (At tokens q) yes after)
    (left : Triple (fun s => At tokens p s ∧ s.tokens.head? ≠ some token) no after) :
    Triple (At tokens p) (do if ← accept token then yes else no) after := by
  refine (triple_accept token step).bind fun found => ?_
  cases found with
  | true => exact taken
  | false => exact left

end

/-- How each reader of nodes passes over the tokens. Brackets close that have been opened, and a node
that may not be a block leaves no block closed right behind it. -/
structure Passes (tokens : List Token) (fuel : Nat) : Prop where
  read : ∀ depth block unindented,
    Triple (At tokens ⟨depth, false⟩) (read fuel block unindented) fun _ s =>
      ∃ closed, At tokens ⟨depth, closed⟩ s ∧ ((block || unindented) = false → closed = false)
  readUnless : ∀ depth stops block unindented,
    Triple (At tokens ⟨depth, false⟩) (readUnless fuel stops block unindented) fun _ s =>
      ∃ closed, At tokens ⟨depth, closed⟩ s ∧ ((block || unindented) = false → closed = false)
  items : ∀ depth closed stops ended,
    Triple (At tokens ⟨depth, closed⟩) (items fuel stops ended) fun _ s =>
      ∃ closed, At tokens ⟨depth, closed⟩ s
  entries : ∀ depth closed,
    Triple (At tokens ⟨depth, closed⟩) (entries fuel) fun _ s => At tokens ⟨depth, true⟩ s
  flowItems : ∀ depth first,
    Triple (At tokens ⟨depth + 1, false⟩) (flowItems fuel first) fun _ => At tokens ⟨depth, false⟩
  flowPair : ∀ depth,
    Triple (fun s => At tokens ⟨depth + 1, false⟩ s ∧ s.tokens.head? ≠ some .flowSequenceEnd)
      (flowPair fuel) fun _ => At tokens ⟨depth + 1, false⟩
  flowEntries : ∀ depth first,
    Triple (At tokens ⟨depth + 1, false⟩) (flowEntries fuel first) fun _ => At tokens ⟨depth, false⟩

section

variable {tokens : List Token} {fuel : Nat}

theorem passes_zero : Passes tokens 0 :=
  ⟨fun _ _ _ => by rw [read]; exact .refuse, fun _ _ _ _ => by rw [readUnless]; exact .refuse,
    fun _ _ _ _ => by rw [items]; exact .refuse, fun _ _ => by rw [entries]; exact .refuse,
    fun _ _ => by rw [flowItems]; exact .refuse, fun _ => by rw [flowPair]; exact .refuse,
    fun _ _ => by rw [flowEntries]; exact .refuse⟩

theorem passes_read_unless (passes : Passes tokens fuel) (depth : Nat) (stops : List Token)
    (block unindented : Bool) :
    Triple (At tokens ⟨depth, false⟩) (readUnless (fuel + 1) stops block unindented) fun _ s =>
      ∃ closed, At tokens ⟨depth, closed⟩ s ∧ ((block || unindented) = false → closed = false) := by
  rw [readUnless]
  refine (triple_is_next stops).bind fun found => .ite ?_ ?_
  · exact fun _ => .pure fun s here => ⟨false, here.1, fun _ => rfl⟩
  · exact fun _ => (passes.read depth block unindented).weaken (fun _ here => here.1) fun _ _ => id

/-- Behind a reader that leaves the place open as to whether a block has ended. -/
theorem triple_anyhow {α : Type} {m : Reader α} {after : α → Source → Prop} {depth : Nat}
    {further : Bool → Prop} (read : ∀ closed, Triple (At tokens ⟨depth, closed⟩) m after) :
    Triple (fun s => ∃ closed, At tokens ⟨depth, closed⟩ s ∧ further closed) m after :=
  .of_exists fun closed => (read closed).weaken (fun _ here => here.1) fun _ _ => id

theorem triple_block_end {α : Type} (depth : Nat) (closed : Bool) (given : α) {excluded : Source → Prop} :
    Triple (fun s => At tokens ⟨depth, closed⟩ s ∧ excluded s)
      (do if ← accept .blockEnd then pure given else refuse) fun _ => At tokens ⟨depth, true⟩ :=
  Triple.weaken (triple_if_accepted .blockEnd (by cases closed <;> rfl) (.pure fun _ => id) .refuse)
    (fun _ here => here.1) fun _ _ => id

theorem passes_items (passes : Passes tokens fuel) (depth : Nat) (closed : Bool)
    (stops : List Token) (ended : Bool) :
    Triple (At tokens ⟨depth, closed⟩) (items (fuel + 1) stops ended) fun _ s =>
      ∃ closed, At tokens ⟨depth, closed⟩ s := by
  rw [items]
  refine triple_if_accepted .item (q := ⟨depth, false⟩) (by cases closed <;> rfl) ?_ (.ite ?_ ?_)
  · refine (passes.readUnless depth stops true false).bind fun item => Triple.map ?_
    exact triple_anyhow fun closed => passes.items depth closed stops ended
  · exact fun _ => .pure fun s here => ⟨closed, here.1⟩
  · exact fun _ => (triple_block_end depth closed []).weaken (fun _ => id) fun _ _ here => ⟨true, here⟩

theorem passes_entries (passes : Passes tokens fuel) (depth : Nat) (closed : Bool) :
    Triple (At tokens ⟨depth, closed⟩) (entries (fuel + 1)) fun _ => At tokens ⟨depth, true⟩ := by
  rw [entries]
  refine triple_if_accepted .key (q := ⟨depth, false⟩) (by cases closed <;> rfl) ?_ ?_
  · refine (passes.readUnless depth _ true true).bind fun key => triple_anyhow fun closed => ?_
    refine triple_if_accepted .value (q := ⟨depth, false⟩) (by cases closed <;> rfl) ?_ ?_
    · refine (passes.readUnless depth _ true true).bind fun value => Triple.map ?_
      exact triple_anyhow fun closed => passes.entries depth closed
    · have stays : Triple (fun s => At tokens ⟨depth, closed⟩ s ∧ s.tokens.head? ≠ some .value)
          (pure empty) fun _ => At tokens ⟨depth, closed⟩ := .pure fun s here => here.1
      exact stays.bind fun value => Triple.map (passes.entries depth closed)
  · exact triple_block_end depth closed []

/-- Behind an announced key no square bracket closes. -/
theorem triple_accept_key (paired : Paired tokens) (depth : Nat) :
    Triple (At tokens ⟨depth + 1, false⟩) (accept .key) fun found s =>
      At tokens ⟨depth + 1, false⟩ s ∧ (found = true → s.tokens.head? ≠ some .flowSequenceEnd) := by
  refine (triple_is_next [.key]).bind fun found => .ite ?_ ?_
  · rintro rfl s a t ⟨here, next⟩ run
    have first : s.tokens.head? = some .key := by
      cases first : s.tokens.head? with
      | none => simp [first] at next
      | some token => simpa [first] using next
    cases run
    refine ⟨here.drop first rfl, fun _ closes => ?_⟩
    obtain ⟨front, parts, _⟩ := here
    obtain ⟨rest, begun⟩ := List.head?_eq_some_iff.1 first
    obtain ⟨back, behind⟩ := List.head?_eq_some_iff.1 closes
    have close : rest = .flowSequenceEnd :: back := by simpa [begun] using behind
    exact paired front back (by rw [parts, begun, close])
  · exact fun _ => .pure fun s start => ⟨start.1, by simp⟩

theorem triple_missing {before : Source → Prop} {closed : Bool} {depth : Nat}
    (here : ∀ s, before s → At tokens ⟨depth, closed⟩ s) :
    Triple before (pure empty) fun _ => At tokens ⟨depth, closed⟩ := .pure here

/-- A node that may not be a block, from a place between brackets to another. -/
theorem triple_flow {before : Source → Prop} {m : Reader Node} {depth : Nat}
    (here : ∀ s, before s → At tokens ⟨depth, false⟩ s)
    (read : Triple (At tokens ⟨depth, false⟩) m fun _ s =>
      ∃ closed, At tokens ⟨depth, closed⟩ s ∧ ((false || false) = false → closed = false)) :
    Triple before m fun _ => At tokens ⟨depth, false⟩ :=
  read.weaken here fun _ _ ⟨_, there, whole⟩ => whole rfl ▸ there

theorem passes_flow_pair (passes : Passes tokens fuel) (depth : Nat) :
    Triple (fun s => At tokens ⟨depth + 1, false⟩ s ∧ s.tokens.head? ≠ some .flowSequenceEnd)
      (flowPair (fuel + 1)) fun _ => At tokens ⟨depth + 1, false⟩ := by
  have value : ∀ key : Node, Triple (At tokens ⟨depth + 1, false⟩)
      (do if ← accept .value then
            let value ← readUnless fuel [.comma, .flowSequenceEnd] false false
            pure (key, value)
          else pure (key, empty))
      fun _ => At tokens ⟨depth + 1, false⟩ := by
    intro key
    refine triple_if_accepted .value rfl ?_ (.pure fun s here => here.1)
    exact (triple_flow (fun _ => id) (passes.readUnless (depth + 1) _ false false)).bind
      fun value => .pure fun _ => id
  rw [flowPair]
  refine (triple_is_next _).bind fun found => .ite ?_ ?_
  · rintro rfl
    have skipped : Triple (fun s => (At tokens ⟨depth + 1, false⟩ s ∧
        s.tokens.head? ≠ some .flowSequenceEnd) ∧
        true = s.tokens.head?.any [Token.value, .comma, .flowSequenceEnd].contains)
        skip fun _ => At tokens ⟨depth + 1, false⟩ := by
      rintro s a t ⟨⟨here, open_⟩, next⟩ run
      cases run
      cases first : s.tokens.head? with
      | none => simp [first] at next
      | some token =>
          have listed := next.symm
          simp only [first, Option.any_some, List.contains_cons, List.contains_nil, Bool.or_false,
            Bool.or_eq_true, beq_iff_eq] at listed
          rcases listed with rfl | rfl | rfl
          · exact here.drop first rfl
          · exact here.drop first rfl
          · exact absurd first open_
    exact skipped.bind fun _ => (triple_missing fun _ => id).bind value
  · exact fun _ => (triple_flow (fun _ here => here.1.1) (passes.read (depth + 1) false false)).bind
      value

/-- The marks between the parts of a collection in brackets: none before the first, a comma else. -/
theorem triple_separated (first : Bool) {depth : Nat} {before : Source → Prop} {α : Type}
    {m : Reader α} {after : α → Source → Prop}
    (here : ∀ s, before s → At tokens ⟨depth + 1, false⟩ s)
    (read : Triple (At tokens ⟨depth + 1, false⟩) m after) :
    Triple before
      (if first = true then do
        let separated ← pure true
        if (!separated) = true then refuse else m
      else do
        let separated ← accept .comma
        if (!separated) = true then refuse else m) after := by
  refine .ite ?_ ?_
  · intro _
    have stays : Triple before (pure true) fun found s => found = true ∧ At tokens ⟨depth + 1, false⟩ s :=
      .pure fun s start => ⟨rfl, here s start⟩
    refine stays.bind fun found => .ite (fun _ => .refuse) fun _ => ?_
    exact read.weaken (fun _ start => start.2) fun _ _ => id
  · intro _
    refine Triple.bind ((triple_accept .comma rfl).weaken here fun _ _ => id) fun found => .ite
      (fun _ => .refuse) fun other => ?_
    simp only [Bool.not_eq_true', Bool.not_eq_false] at other
    subst other
    exact read

theorem passes_flow_items (paired : Paired tokens) (passes : Passes tokens fuel) (depth : Nat)
    (first : Bool) :
    Triple (At tokens ⟨depth + 1, false⟩) (flowItems (fuel + 1) first) fun _ =>
      At tokens ⟨depth, false⟩ := by
  rw [flowItems]
  refine triple_if_accepted .flowSequenceEnd rfl (.pure fun _ => id) ?_
  refine triple_separated first (fun _ here => here.1) ?_
  refine (triple_accept_key paired depth).bind fun found => .ite ?_ ?_
  · intro announced
    refine Triple.bind ((passes.flowPair depth).weaken (fun _ here => ⟨here.1, here.2 announced⟩)
      fun _ _ => id) fun entry => Triple.map (passes.flowItems depth false)
  · intro _
    refine Triple.weaken (triple_if_accepted .flowSequenceEnd rfl (.pure fun _ => id) ?_)
      (fun _ here => here.1) fun _ _ => id
    exact (triple_flow (fun _ here => here.1) (passes.read (depth + 1) false false)).bind
      fun item => Triple.map (passes.flowItems depth false)

theorem passes_flow_entries (passes : Passes tokens fuel) (depth : Nat) (first : Bool) :
    Triple (At tokens ⟨depth + 1, false⟩) (flowEntries (fuel + 1) first) fun _ =>
      At tokens ⟨depth, false⟩ := by
  rw [flowEntries]
  refine triple_if_accepted .flowMappingEnd rfl (.pure fun _ => id) ?_
  refine triple_separated first (fun _ here => here.1) ?_
  refine triple_if_accepted .key rfl ?_ ?_
  · refine (triple_flow (fun _ => id) (passes.readUnless (depth + 1) _ false false)).bind fun key => ?_
    refine triple_if_accepted .value rfl ?_ ?_
    · exact (triple_flow (fun _ => id) (passes.readUnless (depth + 1) _ false false)).bind
        fun value => Triple.map (passes.flowEntries depth false)
    · exact (triple_missing fun _ here => here.1).bind
        fun value => Triple.map (passes.flowEntries depth false)
  · refine Triple.weaken (triple_if_accepted .flowMappingEnd rfl (.pure fun _ => id) ?_)
      (fun _ here => here.1) fun _ _ => id
    exact (triple_flow (fun _ here => here.1) (passes.read (depth + 1) false false)).bind
      fun key => Triple.map (passes.flowEntries depth false)

theorem passes_read (passes : Passes tokens fuel) (depth : Nat) (block unindented : Bool) :
    Triple (At tokens ⟨depth, false⟩) (read (fuel + 1) block unindented) fun _ s =>
      ∃ closed, At tokens ⟨depth, closed⟩ s ∧ ((block || unindented) = false → closed = false) := by
  -- A node that is no block leaves the place as it was.
  have whole : ∀ {m : Reader Node}, Triple (At tokens ⟨depth, false⟩) m
      (fun _ => At tokens ⟨depth, false⟩) → Triple (At tokens ⟨depth, false⟩) m fun _ s =>
        ∃ closed, At tokens ⟨depth, closed⟩ s ∧ ((block || unindented) = false → closed = false) :=
    fun read => read.weaken (fun _ => id) fun _ _ here => ⟨false, here, fun _ => rfl⟩
  rw [read]
  refine triple_peek.bind fun next => ?_
  split
  · next name =>
      refine (triple_skip rfl).bind fun _ => Triple.map ?_
      exact (triple_target name).weaken (fun _ => id) fun _ _ here => ⟨false, here, fun _ => rfl⟩
  · refine Triple.bind (triple_properties.weaken (fun _ here => here.1) fun _ _ => id) fun given => ?_
    refine (triple_label_of given.tag).bind fun label => triple_peek.bind fun next => ?_
    split
    · refine (triple_skip rfl).bind fun _ => whole ?_
      exact (triple_number_of given.anchor).bind fun anchor => .pure fun _ => id
    · refine (triple_skip (q := ⟨depth + 1, false⟩) rfl).bind fun _ => ?_
      refine (triple_number_of given.anchor).bind fun anchor => Triple.map ?_
      exact (passes.flowItems depth true).weaken (fun _ => id)
        fun _ _ here => ⟨false, here, fun _ => rfl⟩
    · refine (triple_skip (q := ⟨depth + 1, false⟩) rfl).bind fun _ => ?_
      refine (triple_number_of given.anchor).bind fun anchor => Triple.map ?_
      exact (passes.flowEntries depth true).weaken (fun _ => id)
        fun _ _ here => ⟨false, here, fun _ => rfl⟩
    · next next =>
        refine .ite ?_ fun _ => .ite ?_ fun _ => .ite ?_ fun _ => .ite ?_ fun _ => .refuse
        · intro item
          simp only [Bool.and_eq_true] at item
          refine Triple.bind ((triple_number_of given.anchor).weaken (fun _ here => here.1)
            fun _ _ => id) fun anchor => Triple.map ?_
          refine (passes.items depth false _ false).weaken (fun _ => id) ?_
          exact fun _ _ ⟨closed, here⟩ => ⟨closed, here, by simp [item.1]⟩
        · intro sequence
          simp only [Bool.and_eq_true, beq_iff_eq] at sequence
          refine Triple.bind ((triple_skip rfl).weaken (fun _ here => ⟨here.1, here.2.trans sequence.2⟩)
            fun _ _ => id) fun _ => (triple_number_of given.anchor).bind fun anchor => Triple.map ?_
          refine (passes.items depth false _ true).weaken (fun _ => id) ?_
          exact fun _ _ ⟨closed, here⟩ => ⟨closed, here, by simp [sequence.1]⟩
        · intro mapping
          simp only [Bool.and_eq_true, beq_iff_eq] at mapping
          refine Triple.bind ((triple_skip rfl).weaken (fun _ here => ⟨here.1, here.2.trans mapping.2⟩)
            fun _ _ => id) fun _ => (triple_number_of given.anchor).bind fun anchor => Triple.map ?_
          refine (passes.entries depth false).weaken (fun _ => id) ?_
          exact fun _ _ here => ⟨true, here, by simp [mapping.1]⟩
        · intro _
          refine Triple.bind ((triple_number_of given.anchor).weaken (fun _ here => here.1)
            fun _ _ => id) fun anchor => .pure fun _ here => ⟨false, here, fun _ => rfl⟩

theorem passes (paired : Paired tokens) (fuel : Nat) : Passes tokens fuel := by
  induction fuel with
  | zero => exact passes_zero
  | succ fuel ih =>
      exact ⟨passes_read ih, passes_read_unless ih, passes_items ih, passes_entries ih,
        passes_flow_items paired ih, passes_flow_pair ih, passes_flow_entries ih⟩

end

end Node

namespace Document

theorem walk_of_forall {p : Place} {tokens : List Token} (closed : p.closed = false)
    (each : ∀ token ∈ tokens, ∀ depth, Place.step? ⟨depth, false⟩ token = some ⟨depth, false⟩) :
    p.walk? tokens = some p := by
  obtain ⟨depth, _⟩ := p
  obtain rfl : _ = false := closed
  induction tokens with
  | nil => rfl
  | cons token rest ih =>
      rw [Place.walk_cons, each token (by simp) depth]
      exact ih fun later member => each later (by simp [member])

theorem walk_of_ends {p : Place} {tokens : List Token} (ended : ends tokens = true) :
    ∃ q, p.walk? tokens = some q := by
  induction tokens generalizing p with
  | nil => exact ⟨p, rfl⟩
  | cons token rest ih =>
      simp only [ends, List.all_cons, Bool.and_eq_true, beq_iff_eq] at ended
      obtain ⟨rfl, later⟩ := ended
      have step : p.step? .documentEnd = some ⟨p.depth, false⟩ := by
        obtain ⟨depth, closed⟩ := p
        cases closed <;> rfl
      rw [Place.walk_cons, step]
      exact ih later

theorem walk_of_read_root {handles : List (String × TagText.Spelling)} {tokens : List Token}
    {d : Document} (paired : Paired tokens) (read : readRoot? handles tokens = some d) :
    ∃ q, Place.walk? ⟨0, false⟩ tokens = some q := by
  obtain ⟨⟨root, after⟩, run, read⟩ := Option.bind_eq_some_iff.1 read
  simp only at read
  split at read
  · next ended =>
      obtain ⟨closed, ⟨front, parts, walked⟩, _⟩ :=
        (Node.passes paired (nodeFuel tokens)).read 0 true false _ _ _ ⟨[], rfl, rfl⟩ run
      obtain ⟨q, behind⟩ := walk_of_ends (p := ⟨0, closed⟩) ended
      exact ⟨q, by rw [parts, Place.walk_append, walked]; exact behind⟩
  · cases read

theorem Paired.drop {front back : List Token} (paired : Paired (front ++ back)) : Paired back :=
  fun before after parts => paired (front ++ before) after (by rw [parts, List.append_assoc])

theorem walk_of_is_directive {depth : Nat} {token : Token} (directive : isDirective token = true) :
    Place.step? ⟨depth, false⟩ token = some ⟨depth, false⟩ := by
  cases token with
  | version => rfl
  | handle => rfl
  | _ => cases directive

/-- The tokens of a document stand where they may. -/
theorem walk_of_of_tokens {tokens : List Token} {d : Document} (paired : Paired tokens)
    (read : ofTokens? tokens = some d) : ∃ q, Place.walk? ⟨0, false⟩ tokens = some q := by
  cases tokens with
  | nil => exact ⟨_, rfl⟩
  | cons first rest =>
      rw [ofTokens?] at read
      split at read
      · have parts : first :: rest = (first :: rest).takeWhile isDirective ++
            (first :: rest).dropWhile isDirective := List.takeWhile_append_dropWhile.symm
        have front : Place.walk? ⟨0, false⟩ ((first :: rest).takeWhile isDirective) =
            some ⟨0, false⟩ := walk_of_forall rfl fun token member depth =>
          walk_of_is_directive (List.all_eq_true.1 List.all_takeWhile token member)
        obtain ⟨directives, _, read⟩ := Option.bind_eq_some_iff.1 read
        rw [parts, Place.walk_append, front, Option.bind_some]
        rw [parts] at paired
        split at read
        · next content start =>
            have opened : Place.walk? ⟨0, false⟩ (.documentStart :: content) =
                Place.walk? ⟨0, false⟩ content := Place.walk_cons _ _ _
            rw [start, opened]
            have behind : Paired content := by
              rw [start, List.append_cons] at paired
              exact Paired.drop paired
            split at read
            · exact ⟨_, rfl⟩
            · next rest =>
                split at read
                · next ended =>
                    have step : Place.walk? ⟨0, false⟩ (.documentEnd :: rest) =
                        Place.walk? ⟨0, false⟩ rest := Place.walk_cons _ _ _
                    rw [step]
                    exact walk_of_ends ended
                · cases read
            · exact walk_of_read_root behind read
        · cases read
      · exact walk_of_read_root paired read

end Document

end MessageSchema.Yaml
