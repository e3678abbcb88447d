import MessageSchema.Proofs.TokenOrder
import MessageSchema.Text.Ident

/-!
How the tokens of a text come together. Tokens are put at the end, except for those that announce a
key, which are put in where the key began. So what has been read stays, and it stays undivided from the
last place on where a key may still turn out to have begun. Announcements are no brackets; that is why
the scanner and the node reader agree on how many brackets are open.
-/

namespace MessageSchema.Yaml

set_option autoImplicit false

/-- What is put in front of a key. -/
def announces (token : Token) : Bool :=
  [Token.key, .blockMapping, .blockSequence].contains token

/-- Tokens that come from others, where nothing is put in before a place. -/
inductive Grows (least : Nat) (tokens : List Token) : List Token → Prop where
  | refl : Grows least tokens tokens
  | append {grown : List Token} (before : Grows least tokens grown) (more : List Token) :
      Grows least tokens (grown ++ more)
  | insert {front back : List Token} {token : Token} (before : Grows least tokens (front ++ back))
      (late : least ≤ front.length) (announced : announces token = true) :
      Grows least tokens (front ++ token :: back)

namespace Grows

variable {least : Nat} {tokens grown : List Token}

theorem trans {further : List Token} (first : Grows least tokens grown)
    (second : Grows least grown further) : Grows least tokens further := by
  induction second with
  | refl => exact first
  | append _ more ih => exact ih.append more
  | insert _ late announced ih => exact ih.insert late announced

theorem mem {token : Token} (grows : Grows least tokens grown) (member : token ∈ tokens) :
    token ∈ grown := by
  induction grows with
  | refl => exact member
  | append _ more ih => exact List.mem_append_left _ ih
  | @insert front back _ _ _ _ ih =>
      rcases List.mem_append.1 ih with early | late
      · exact List.mem_append_left _ early
      · exact List.mem_append_right _ (List.mem_cons_of_mem _ late)

/-- Tokens before the place where announcements may still come stay a beginning. -/
theorem starts_with (grows : Grows least tokens grown) (early : tokens.length ≤ least) :
    tokens <+: grown := by
  induction grows with
  | refl => exact List.prefix_refl _
  | append _ more ih => exact ih.trans (List.prefix_append _ _)
  | @insert front back token _ late _ ih =>
      have short : tokens <+: front :=
        List.prefix_of_prefix_length_le ih (List.prefix_append _ _) (Nat.le_trans early late)
      exact short.trans (List.prefix_append _ _)

end Grows

theorem openings_append (front back : List Token) :
    openings (front ++ back) = openings front + openings back := List.countP_append

theorem closings_append (front back : List Token) :
    closings (front ++ back) = closings front + closings back := List.countP_append

theorem not_bracket_of_announces {token : Token} (announced : announces token = true) :
    isOpening token = false ∧ isClosing token = false := by
  simp only [announces, List.contains_cons, List.contains_nil, Bool.or_false, Bool.or_eq_true,
    beq_iff_eq] at announced
  rcases announced with rfl | rfl | rfl <;> exact ⟨rfl, rfl⟩

theorem openings_insert {front back : List Token} {token : Token} (announced : announces token = true) :
    openings (front ++ token :: back) = openings (front ++ back) := by
  rw [openings_append, openings_append, openings, openings, openings,
    List.countP_cons_of_neg (by simp [not_bracket_of_announces announced])]

theorem closings_insert {front back : List Token} {token : Token} (announced : announces token = true) :
    closings (front ++ token :: back) = closings (front ++ back) := by
  rw [closings_append, closings_append, closings, closings, closings,
    List.countP_cons_of_neg (by simp [not_bracket_of_announces announced])]

/-- A comma outside brackets. -/
def Stray (tokens : List Token) : Prop :=
  ∃ front back, tokens = front ++ .comma :: back ∧ openings front ≤ closings front

theorem Stray.grows {least : Nat} {tokens grown : List Token} (stray : Stray tokens)
    (grows : Grows least tokens grown) : Stray grown := by
  induction grows with
  | refl => exact stray
  | append _ more ih =>
      obtain ⟨front, back, rfl, outside⟩ := ih
      exact ⟨front, back ++ more, by simp, outside⟩
  | @insert before behind token _ _ announced ih =>
      obtain ⟨front, back, parts, outside⟩ := ih
      rcases List.append_eq_append_iff.1 parts with ⟨middle, rfl, rfl⟩ | ⟨middle, rfl, split⟩
      · refine ⟨before ++ token :: middle, back, by simp, ?_⟩
        rw [openings_insert announced, closings_insert announced]
        exact outside
      · cases middle with
        | nil =>
            refine ⟨front ++ [token], back, ?_, ?_⟩
            · simp only [List.nil_append] at split
              simp [← split]
            · rw [openings_insert announced, closings_insert announced, List.append_nil]
              exact outside
        | cons first rest =>
            obtain ⟨rfl, rfl⟩ := List.cons.inj split
            exact ⟨front, rest ++ token :: behind, by simp, outside⟩

theorem to_list_insert_idx_if_in_bounds (tokens : Array Token) (place : Nat) (token : Token) :
    (tokens.insertIdxIfInBounds place token).toList =
      if place ≤ tokens.size then tokens.toList.take place ++ token :: tokens.toList.drop place
      else tokens.toList := by
  have inserted : ∀ (items : List Token) (place : Nat), place ≤ items.length →
      items.insertIdx place token = items.take place ++ token :: items.drop place := by
    intro items
    induction items with
    | nil =>
        intro place bound
        obtain rfl : place = 0 := by simpa using bound
        rfl
    | cons first rest ih =>
        intro place bound
        cases place with
        | zero => rfl
        | succ place =>
            rw [List.insertIdx_succ_cons, ih place (by simpa using bound)]
            rfl
  unfold Array.insertIdxIfInBounds
  split
  · next bound => rw [Array.toList_insertIdx, inserted _ _ (by simpa using bound)]
  · rfl

namespace Scan

variable {s t u : Scan} {least : Nat}

/-- No key can turn out to have begun before a place among the tokens. -/
structure Placed (least : Nat) (s : Scan) : Prop where
  size : least ≤ s.tokens.size
  keys : ∀ candidate ∈ s.candidate :: s.outer, ∀ key ∈ candidate, least ≤ key.place

/-- At least as many levels of brackets are kept as brackets are open. -/
def Bracketed (s : Scan) : Prop :=
  openings s.tokens.toList ≤ s.outer.length + closings s.tokens.toList

/-- What reading on does to the tokens. -/
structure Grown (least : Nat) (s t : Scan) : Prop where
  tokens : Grows least s.tokens.toList t.tokens.toList
  placed : t.Placed least
  bracketed : s.Bracketed → t.Bracketed

theorem Grown.trans (first : Grown least s t) (second : Grown least t u) : Grown least s u :=
  ⟨first.tokens.trans second.tokens, second.placed, second.bracketed ∘ first.bracketed⟩

theorem grown_of_append (placed : s.Placed least) (more : List Token)
    (tokens : t.tokens.toList = s.tokens.toList ++ more)
    (keys : ∀ candidate ∈ t.candidate :: t.outer, ∀ key ∈ candidate, least ≤ key.place)
    (depth : openings more + s.outer.length ≤ t.outer.length + closings more) :
    Grown least s t := by
  refine ⟨tokens ▸ .append .refl more, ⟨?_, keys⟩, ?_⟩
  · have size := congrArg List.length tokens
    have before := placed.size
    simp only [List.length_append, Array.length_toList] at size
    omega
  · intro bracketed
    unfold Bracketed at bracketed ⊢
    rw [tokens, openings_append, closings_append]
    omega

/-- The same where the levels of brackets stay. -/
theorem grown_of_emit (placed : s.Placed least) (more : List Token)
    (tokens : t.tokens.toList = s.tokens.toList ++ more)
    (keys : ∀ key ∈ t.candidate, least ≤ key.place) (levels : t.outer = s.outer)
    (plain : openings more ≤ closings more) : Grown least s t := by
  refine grown_of_append placed more tokens ?_ (by rw [levels]; omega)
  intro candidate member
  rcases List.mem_cons.1 member with rfl | outer
  · exact keys
  · exact placed.keys candidate (List.mem_cons_of_mem _ (levels ▸ outer))

/-- Nothing but the place in the text changes. -/
theorem grown_of_same (placed : s.Placed least) (tokens : t.tokens = s.tokens)
    (keys : ∀ key ∈ t.candidate, least ≤ key.place) (levels : t.outer = s.outer) :
    Grown least s t :=
  grown_of_emit placed [] (by simp [tokens]) keys levels (Nat.le_refl _)

/-! ### Steps of the scanner -/

theorem lapse_eq_some {candidate candidate' : Option Candidate}
    (lapsed : lapse? candidate = some candidate') :
    candidate' = none ∧ candidate.any (·.required) = false := by
  unfold lapse? at lapsed
  split at lapsed
  · cases lapsed
  · next optional => exact ⟨(Option.some.inj lapsed).symm, by simpa using optional⟩

theorem drop_candidate_eq_some (dropped : s.dropCandidate? = some t) :
    t = { s with candidate := none } ∧ s.candidate.any (·.required) = false := by
  obtain ⟨candidate, lapsed, rfl⟩ := Option.map_eq_some_iff.1 dropped
  obtain ⟨rfl, optional⟩ := lapse_eq_some lapsed
  exact ⟨rfl, optional⟩

/-- The key that may begin at the cursor. -/
def here (s : Scan) : Candidate :=
  ⟨!s.inFlow && s.indents.head? == some s.cursor.column, s.tokens.size, s.cursor.index,
    s.cursor.line, s.cursor.column⟩

theorem note_candidate_eq_some (noted : s.noteCandidate? = some t) :
    s.keyAllowed = false ∧ t = s ∨ s.keyAllowed = true ∧
      s.candidate.any (·.required) = false ∧ t = { s with candidate := some s.here } := by
  unfold noteCandidate? at noted
  split at noted
  · next closed => exact Or.inl ⟨by simpa using closed, (Option.some.inj noted).symm⟩
  · next allowed =>
      obtain ⟨u, dropped, noted⟩ := Option.bind_eq_some_iff.1 noted
      obtain ⟨rfl, optional⟩ := drop_candidate_eq_some dropped
      exact Or.inr ⟨by simpa using allowed, optional, (Option.some.inj noted).symm⟩

theorem note_candidate_of_closed (closed : s.keyAllowed = false) : s.noteCandidate? = some s := by
  simp [noteCandidate?, closed]

theorem note_candidate_of_allowed (allowed : s.keyAllowed = true)
    (optional : s.candidate.any (·.required) = false) :
    s.noteCandidate? = some { s with candidate := some s.here } := by
  have dropped : s.dropCandidate? = some { s with candidate := none } := by
    rw [dropCandidate?, lapse?, optional]
    rfl
  rw [noteCandidate?, if_neg (by simp [allowed]), dropped]
  rfl

theorem note_grown (placed : s.Placed least) (noted : s.noteCandidate? = some t) :
    Grown least s t := by
  rcases note_candidate_eq_some noted with ⟨_, rfl⟩ | ⟨_, _, rfl⟩
  · exact grown_of_same placed rfl (placed.keys _ (by simp)) rfl
  · refine grown_of_same placed rfl ?_ rfl
    rintro key ⟨⟩
    exact placed.size

theorem drop_grown (placed : s.Placed least) (dropped : s.dropCandidate? = some t) :
    Grown least s t := by
  obtain ⟨rfl, _⟩ := drop_candidate_eq_some dropped
  exact grown_of_same placed rfl (by simp) rfl

theorem openings_block_ends (indents : List Nat) :
    openings (indents.map fun _ => Token.blockEnd) = 0 := by
  simp [openings, List.countP_eq_zero, isOpening]

theorem close_grown (placed : s.Placed least) (column : Nat) :
    Grown least s (s.closeBlocks column) := by
  unfold closeBlocks
  split
  · exact grown_of_same placed rfl (placed.keys _ (by simp)) rfl
  · refine grown_of_emit placed ((deeperThan column s.indents).map fun _ => .blockEnd) (by simp)
      (placed.keys _ (by simp)) rfl ?_
    rw [openings_block_ends]
    exact Nat.zero_le _

theorem close_all_grown (placed : s.Placed least) : Grown least s s.closeAllBlocks := by
  unfold closeAllBlocks
  split
  · exact grown_of_same placed rfl (placed.keys _ (by simp)) rfl
  · refine grown_of_emit placed (s.indents.map fun _ => .blockEnd) (by simp)
      (placed.keys _ (by simp)) rfl ?_
    rw [openings_block_ends]
    exact Nat.zero_le _

theorem insert_grown (placed : s.Placed least) {place : Nat} {token : Token} {indents : List Nat}
    (late : least ≤ place) (announced : announces token = true) :
    Grown least s
      { s with indents := indents, tokens := s.tokens.insertIdxIfInBounds place token } := by
  have inserted := to_list_insert_idx_if_in_bounds s.tokens place token
  split at inserted
  · next bound =>
      have parts : s.tokens.toList.take place ++ s.tokens.toList.drop place = s.tokens.toList :=
        List.take_append_drop place _
      refine ⟨?_, ⟨?_, placed.keys⟩, ?_⟩
      · rw [inserted]
        refine .insert (parts.symm ▸ .refl) ?_ announced
        rw [List.length_take, Array.length_toList]
        omega
      · have size := congrArg List.length inserted
        have whole := congrArg List.length parts
        have before := placed.size
        simp only [List.length_append, List.length_cons, Array.length_toList] at size whole ⊢
        omega
      · intro bracketed
        unfold Bracketed at bracketed ⊢
        simp only [inserted]
        rw [openings_insert announced, closings_insert announced, parts]
        exact bracketed
  · have same := Array.toList_inj.1 inserted
    exact ⟨inserted ▸ .refl, ⟨by simp only [same]; exact placed.size, placed.keys⟩,
      by simp only [Bracketed, same]; exact id⟩

theorem open_grown (placed : s.Placed least) (column : Nat) {place : Nat} {token : Token}
    (late : least ≤ place) (announced : announces token = true) :
    Grown least s (s.openBlock column place token) := by
  unfold openBlock
  split
  · exact grown_of_same placed rfl (placed.keys _ (by simp)) rfl
  · exact insert_grown placed late announced

theorem push_grown (placed : s.Placed least) {token : Token} (tokens : t.tokens = s.tokens.push token)
    (candidate : t.candidate = s.candidate) (levels : t.outer = s.outer)
    (plain : isOpening token = false) : Grown least s t := by
  refine grown_of_emit placed [token] (by rw [tokens, Array.toList_push])
    (candidate ▸ placed.keys _ (by simp)) levels ?_
  simp [openings, plain]

theorem version_directive_token {c d : Cursor} {token : Token}
    (read : versionDirective? c = some (token, d)) : ∃ major minor, token = .version major minor := by
  obtain ⟨⟨major, dot⟩, _, read⟩ := Option.bind_eq_some_iff.1 read
  simp only at read
  split at read
  · cases read
  · obtain ⟨⟨minor, after⟩, _, read⟩ := Option.bind_eq_some_iff.1 read
    cases read
    exact ⟨major, minor, rfl⟩

theorem handle_directive_token {c d : Cursor} {token : Token}
    (read : handleDirective? c = some (token, d)) :
    ∃ name replacement, token = .handle name replacement := by
  obtain ⟨handle, _, read⟩ := Option.bind_eq_some_iff.1 read
  simp only at read
  split at read
  · cases read
  · obtain ⟨uri, _, read⟩ := Option.bind_eq_some_iff.1 read
    split at read
    · cases read
    · cases read
      exact ⟨_, _, rfl⟩

/-- A directive closes all blocks and is one token. -/
theorem directive_eq_some (step : s.directive? = some t) :
    ∃ u token next, s.closeAllBlocks.dropCandidate? = some u ∧ Document.isDirective token = true ∧
      t = { u with cursor := next, keyAllowed := false, tokens := u.tokens.push token } := by
  obtain ⟨u, dropped, step⟩ := Option.bind_eq_some_iff.1 step
  simp only at step
  split at step
  · cases step
  · split at step
    · obtain ⟨⟨token, rest⟩, read, step⟩ := Option.bind_eq_some_iff.1 step
      obtain ⟨next, _, step⟩ := Option.bind_eq_some_iff.1 step
      cases step
      obtain ⟨major, minor, rfl⟩ := version_directive_token read
      exact ⟨u, _, next, dropped, rfl, rfl⟩
    · split at step
      · obtain ⟨⟨token, rest⟩, read, step⟩ := Option.bind_eq_some_iff.1 step
        obtain ⟨next, _, step⟩ := Option.bind_eq_some_iff.1 step
        cases step
        obtain ⟨name, replacement, rfl⟩ := handle_directive_token read
        exact ⟨u, _, next, dropped, rfl, rfl⟩
      · cases step

theorem directive_grown (placed : s.Placed least) (step : s.directive? = some t) :
    Grown least s t := by
  obtain ⟨u, token, next, dropped, directive, rfl⟩ := directive_eq_some step
  have closed := close_all_grown placed
  have before := closed.trans (drop_grown closed.placed dropped)
  have plain : isOpening token = false := by
    cases token with
    | version => rfl
    | handle => rfl
    | _ => cases directive
  exact before.trans (push_grown before.placed rfl rfl rfl plain)

theorem document_mark_grown (placed : s.Placed least) (step : s.documentMark? = some t) :
    Grown least s t := by
  obtain ⟨u, dropped, step⟩ := Option.bind_eq_some_iff.1 step
  cases step
  have closed := close_all_grown placed
  have before := closed.trans (drop_grown closed.placed dropped)
  refine before.trans (push_grown before.placed rfl rfl rfl ?_)
  split <;> rfl

theorem open_flow_grown (placed : s.Placed least) {token : Token}
    (step : s.openFlow? token = some t) (opens : openings [token] = 1) : Grown least s t := by
  obtain ⟨u, noted, step⟩ := Option.bind_eq_some_iff.1 step
  cases step
  have before := note_grown placed noted
  refine before.trans (grown_of_append before.placed [token] (by simp [emitMark]) ?_ ?_)
  · intro candidate member
    rcases List.mem_cons.1 member with rfl | outer
    · simp [emitMark]
    · exact before.placed.keys candidate outer
  · simp only [emitMark, List.length_cons]
    omega

theorem close_flow_grown (placed : s.Placed least) {token : Token}
    (step : s.closeFlow? token = some t) (opens : openings [token] = 0)
    (closes : closings [token] = 1) : Grown least s t := by
  obtain ⟨u, dropped, step⟩ := Option.bind_eq_some_iff.1 step
  cases step
  have before := drop_grown placed dropped
  refine before.trans (grown_of_append before.placed [token] ?_ ?_ ?_)
  · cases u.outer <;> simp [emitMark]
  · intro candidate member
    refine before.placed.keys candidate ?_
    cases levels : u.outer with
    | nil => simpa [emitMark, levels] using member
    | cons first rest =>
        rw [levels] at member
        exact List.mem_cons_of_mem _ member
  · cases u.outer with
    | nil => simp [emitMark, opens]
    | cons first rest => simp only [emitMark, List.length_cons]; omega

theorem comma_grown (placed : s.Placed least) (step : s.comma? = some t) : Grown least s t := by
  obtain ⟨u, dropped, step⟩ := Option.bind_eq_some_iff.1 step
  cases step
  have before := drop_grown placed dropped
  exact before.trans (push_grown before.placed rfl rfl rfl rfl)

theorem item_grown (placed : s.Placed least) (step : s.item? = some t) : Grown least s t := by
  unfold item? at step
  split at step
  · cases step
  · obtain ⟨u, dropped, step⟩ := Option.bind_eq_some_iff.1 step
    cases step
    have opened : Grown least s (s.openBlock s.cursor.column s.tokens.size .blockSequence) :=
      open_grown placed _ placed.size rfl
    have before := opened.trans (drop_grown opened.placed dropped)
    exact before.trans (push_grown before.placed rfl rfl rfl rfl)

theorem key_grown (placed : s.Placed least) (step : s.key? = some t) : Grown least s t := by
  unfold key? at step
  split at step
  · cases step
  · obtain ⟨u, dropped, step⟩ := Option.bind_eq_some_iff.1 step
    cases step
    have opened : Grown least s (s.openBlock s.cursor.column s.tokens.size .blockMapping) :=
      open_grown placed _ placed.size rfl
    have before := opened.trans (drop_grown opened.placed dropped)
    exact before.trans (push_grown before.placed rfl rfl rfl rfl)

theorem value_grown (placed : s.Placed least) (step : s.value? = some t) : Grown least s t := by
  unfold value? at step
  split at step
  · next key begun =>
      cases step
      have late : least ≤ key.place := placed.keys _ (by simp) key begun
      have announced : Grown least s
          { s with tokens := s.tokens.insertIdxIfInBounds key.place .key } :=
        insert_grown placed late rfl
      have mapping : announces .blockMapping = true := rfl
      have opened := announced.trans (open_grown announced.placed key.column late mapping)
      exact opened.trans (grown_of_emit opened.placed [.value] (by simp [emitMark]) (by simp [emitMark])
        rfl (Nat.zero_le _))
  · split at step
    · cases step
    · cases step
      have opened : Grown least s (s.openBlock s.cursor.column s.tokens.size .blockMapping) :=
        open_grown placed _ placed.size rfl
      exact opened.trans (push_grown opened.placed rfl rfl rfl rfl)

theorem name_grown (placed : s.Placed least) {token : String → Token}
    (plain : ∀ name, isOpening (token name) = false) (step : s.name? token = some t) :
    Grown least s t := by
  obtain ⟨u, noted, step⟩ := Option.bind_eq_some_iff.1 step
  simp only at step
  split at step
  · cases step
  · split at step
    · cases step
      have before := note_grown placed noted
      exact before.trans (push_grown before.placed rfl rfl rfl (plain _))
    · cases step

theorem tag_grown (placed : s.Placed least) (step : s.tag? = some t) : Grown least s t := by
  obtain ⟨u, noted, step⟩ := Option.bind_eq_some_iff.1 step
  obtain ⟨⟨written, next⟩, _, step⟩ := Option.bind_eq_some_iff.1 step
  cases step
  have before := note_grown placed noted
  exact before.trans (push_grown before.placed rfl rfl rfl rfl)

theorem block_grown (placed : s.Placed least) {literal : Bool} (step : s.block? literal = some t) :
    Grown least s t := by
  obtain ⟨u, dropped, step⟩ := Option.bind_eq_some_iff.1 step
  obtain ⟨⟨text, next⟩, _, step⟩ := Option.bind_eq_some_iff.1 step
  cases step
  have before := drop_grown placed dropped
  exact before.trans (push_grown before.placed rfl rfl rfl rfl)

theorem quoted_grown (placed : s.Placed least) {single : Bool} (step : s.quoted? single = some t) :
    Grown least s t := by
  obtain ⟨u, noted, step⟩ := Option.bind_eq_some_iff.1 step
  obtain ⟨⟨text, next⟩, _, step⟩ := Option.bind_eq_some_iff.1 step
  cases step
  have before := note_grown placed noted
  exact before.trans (push_grown before.placed rfl rfl rfl rfl)

theorem plain_grown (placed : s.Placed least) (step : s.plain? = some t) : Grown least s t := by
  obtain ⟨u, noted, step⟩ := Option.bind_eq_some_iff.1 step
  obtain ⟨read, _, step⟩ := Option.bind_eq_some_iff.1 step
  cases step
  have before := note_grown placed noted
  exact before.trans (push_grown before.placed rfl rfl rfl rfl)

/-! ### Which token comes next -/

/-- The kinds of steps that read a token. -/
inductive Act where
  | directive
  | documentMark
  | openFlow (mapping : Bool)
  | closeFlow (mapping : Bool)
  | comma
  | item
  | key
  | value
  | name (isAlias : Bool)
  | tag
  | block (literal : Bool)
  | quoted (single : Bool)
  | plain

/-- What the next characters and the brackets around them ask for. -/
def act? (inFlow : Bool) (c : Cursor) : Option Act :=
  match c.rest with
  | [] => none
  | x :: rest =>
      let apart := endOr isBlankOrBreak rest
      if c.column == 0 && x == '%' then some .directive
      else if c.onDocumentMark then some .documentMark
      else if x == '[' then some (.openFlow false)
      else if x == '\x7b' then some (.openFlow true)
      else if x == ']' then some (.closeFlow false)
      else if x == '\x7d' then some (.closeFlow true)
      else if x == ',' then some .comma
      else if x == '-' && apart then some .item
      else if x == '?' && (inFlow || apart) then some .key
      else if x == ':' && (inFlow || apart) then some .value
      else if x == '*' then some (.name true)
      else if x == '&' then some (.name false)
      else if x == '!' then some .tag
      else if x == '|' && !inFlow then some (.block true)
      else if x == '>' && !inFlow then some (.block false)
      else if x == '\'' then some (.quoted true)
      else if x == '"' then some (.quoted false)
      else if isIndicator x || isBlankOrBreak x then none
      else some .plain

def Act.run? (s : Scan) : Act → Option Scan
  | directive => s.directive?
  | documentMark => s.documentMark?
  | openFlow mapping => s.openFlow? (if mapping then .flowMapping else .flowSequence)
  | closeFlow mapping => s.closeFlow? (if mapping then .flowMappingEnd else .flowSequenceEnd)
  | comma => s.comma?
  | item => s.item?
  | key => s.key?
  | value => s.value?
  | name isAlias => s.name? (if isAlias then .aliasOf else .anchor)
  | tag => s.tag?
  | block literal => s.block? literal
  | quoted single => s.quoted? single
  | plain => s.plain?

theorem token_eq (s : Scan) : s.token? = (act? s.inFlow s.cursor).bind (Act.run? s) := by
  have first : ∀ {condition : Prop} [Decidable condition] (act : Act) (others : Option Act),
      (if condition then some act else others).bind (Act.run? s) =
        if condition then act.run? s else others.bind (Act.run? s) :=
    fun act others => apply_ite (Option.bind · (Act.run? s)) _ (some act) others
  have last : ∀ {condition : Prop} [Decidable condition] (act : Act),
      (if condition then none else some act).bind (Act.run? s) =
        if condition then none else act.run? s :=
    fun act => apply_ite (Option.bind · (Act.run? s)) _ none (some act)
  unfold token? act?
  cases s.cursor.rest with
  | nil => rfl
  | cons x rest =>
      simp only [first, last]
      rfl

/-- What stands at the cursor when a kind of token comes next. -/
def Act.Fits (c : Cursor) : Act → Prop
  | directive => c.column = 0
  | documentMark => c.onDocumentMark = true
  | quoted single => c.rest.head? = some (if single then '\'' else '"')
  | plain => ∃ x rest, c.rest = x :: rest ∧ isBlankOrBreak x = false
  | _ => ∃ x rest, c.rest = x :: rest ∧ Text.isIdentChar x = false ∧ isBreak x = false

theorem fits_of_act {inFlow : Bool} {c : Cursor} {act : Act} (found : act? inFlow c = some act) :
    act.Fits c := by
  -- Each question either settles the act or is passed on to the questions after it.
  have ask : ∀ {condition : Prop} [Decidable condition] {settled : Act} {others : Option Act},
      (condition → settled.Fits c) → (others = some act → act.Fits c) →
      (if condition then some settled else others) = some act → act.Fits c := by
    intro condition _ settled others yes no found
    split at found
    · next holds =>
        cases found
        exact yes holds
    · exact no found
  unfold act? at found
  split at found
  · cases found
  · next x rest parts =>
      have mark : ∀ y, Text.isIdentChar y = false → isBreak y = false → (x == y) = true →
          ∃ x rest, c.rest = x :: rest ∧ Text.isIdentChar x = false ∧ isBreak x = false := by
        intro y other inLine same
        obtain rfl := beq_iff_eq.1 same
        exact ⟨x, rest, parts, other, inLine⟩
      have marked : ∀ y further, Text.isIdentChar y = false → isBreak y = false →
          (x == y && further) = true →
          ∃ x rest, c.rest = x :: rest ∧ Text.isIdentChar x = false ∧ isBreak x = false :=
        fun y further other inLine both => mark y other inLine (Bool.and_eq_true_iff.1 both).1
      have quote : ∀ y, (x == y) = true → c.rest.head? = some y := by
        intro y same
        rw [parts, beq_iff_eq.1 same]
        rfl
      revert found
      refine ask (fun start => ?_) <| ask (fun mark => mark) <|
        ask (mark _ (by decide) (by decide)) <| ask (mark _ (by decide) (by decide)) <|
        ask (mark _ (by decide) (by decide)) <| ask (mark _ (by decide) (by decide)) <|
        ask (mark _ (by decide) (by decide)) <| ask (marked _ _ (by decide) (by decide)) <|
        ask (marked _ _ (by decide) (by decide)) <| ask (marked _ _ (by decide) (by decide)) <|
        ask (mark _ (by decide) (by decide)) <| ask (mark _ (by decide) (by decide)) <|
        ask (mark _ (by decide) (by decide)) <| ask (marked _ _ (by decide) (by decide)) <|
        ask (marked _ _ (by decide) (by decide)) <| ask (quote _) <| ask (quote _) fun last => ?_
      · exact beq_iff_eq.1 (Bool.and_eq_true_iff.1 start).1
      · split at last
        · cases last
        · next open_ =>
            cases last
            exact ⟨x, rest, parts, by simpa using (by simpa using open_ : _ ∧ _).2⟩

theorem token_grown (placed : s.Placed least) (step : s.token? = some t) : Grown least s t := by
  rw [token_eq] at step
  obtain ⟨act, _, step⟩ := Option.bind_eq_some_iff.1 step
  cases act with
  | directive => exact directive_grown placed step
  | documentMark => exact document_mark_grown placed step
  | openFlow mapping => exact open_flow_grown placed step (by cases mapping <;> rfl)
  | closeFlow mapping =>
      exact close_flow_grown placed step (by cases mapping <;> rfl) (by cases mapping <;> rfl)
  | comma => exact comma_grown placed step
  | item => exact item_grown placed step
  | key => exact key_grown placed step
  | value => exact value_grown placed step
  | name isAlias => exact name_grown placed (fun _ => by cases isAlias <;> rfl) step
  | tag => exact tag_grown placed step
  | block literal => exact block_grown placed step
  | quoted single => exact quoted_grown placed step
  | plain => exact plain_grown placed step

/-! ### From token to token -/

/-- The end of the blanks and comments of a line. -/
def pastBlank (s : Scan) : Cursor :=
  let marked :=
    if s.cursor.column == 0 && s.cursor.rest.head? == some '\ufeff' then s.cursor.advance 1
    else s.cursor
  let spaced := marked.dropWhile fun c => c == ' ' || ((s.inFlow || !s.keyAllowed) && c == '\t')
  if spaced.rest.head? == some '#' then spaced.toBreak else spaced

/-- The start of the next line, where in a block a key may begin. -/
def onNextLine (s : Scan) : Scan :=
  { s with cursor := s.pastBlank.nextLine, keyAllowed := s.keyAllowed || !s.inFlow }

theorem skip_blank_succ (fuel : Nat) (s : Scan) :
    skipBlank (fuel + 1) s =
      if s.pastBlank.onBreak then skipBlank fuel s.onNextLine else { s with cursor := s.pastBlank } :=
  rfl

theorem skip_grown (placed : s.Placed least) (fuel : Nat) : Grown least s (skipBlank fuel s) := by
  induction fuel generalizing s with
  | zero => exact grown_of_same placed rfl (placed.keys _ (by simp [skipBlank])) rfl
  | succ fuel ih =>
      rw [skip_blank_succ]
      split
      · have down : Grown least s s.onNextLine :=
          grown_of_same placed rfl (placed.keys _ (by simp [onNextLine])) rfl
        exact down.trans (ih down.placed)
      · exact grown_of_same placed rfl (placed.keys _ (by simp)) rfl

/-- What becomes of a candidate when those that are past lapse. -/
def settle? (c : Cursor) (candidate : Option Candidate) : Option (Option Candidate) :=
  if candidate.any (·.isPast c) then lapse? candidate else some candidate

theorem drop_past_eq (s : Scan) : s.dropPast? =
    (settle? s.cursor s.candidate).bind fun candidate =>
      (s.outer.mapM (settle? s.cursor)).bind fun outer =>
        some { s with candidate := candidate, outer := outer } := rfl

theorem settle_eq_some {c : Cursor} {candidate candidate' : Option Candidate}
    (settled : settle? c candidate = some candidate') :
    candidate' = candidate ∧ candidate.any (·.isPast c) = false ∨
      candidate' = none ∧ candidate.any (·.required) = false := by
  unfold settle? at settled
  split at settled
  · exact Or.inr (lapse_eq_some settled)
  · next current => exact Or.inl ⟨(Option.some.inj settled).symm, by simpa using current⟩

theorem of_map_m_eq_some {α β : Type} {f : α → Option β} {given : List α} {results : List β}
    (run : given.mapM f = some results) :
    results.length = given.length ∧ ∀ y ∈ results, ∃ x ∈ given, f x = some y := by
  induction given generalizing results with
  | nil =>
      rw [List.mapM_nil] at run
      cases run
      exact ⟨rfl, by simp⟩
  | cons first rest ih =>
      rw [List.mapM_cons] at run
      obtain ⟨y, head, run⟩ := Option.bind_eq_some_iff.1 run
      obtain ⟨ys, tail, run⟩ := Option.bind_eq_some_iff.1 run
      cases run
      obtain ⟨length, origin⟩ := ih tail
      refine ⟨by simp [length], fun z member => ?_⟩
      rcases List.mem_cons.1 member with rfl | later
      · exact ⟨first, by simp, head⟩
      · obtain ⟨x, among, become⟩ := origin z later
        exact ⟨x, List.mem_cons_of_mem _ among, become⟩

theorem drop_past_grown (placed : s.Placed least) (step : s.dropPast? = some t) :
    Grown least s t := by
  rw [drop_past_eq] at step
  obtain ⟨candidate, first, step⟩ := Option.bind_eq_some_iff.1 step
  obtain ⟨outer, others, step⟩ := Option.bind_eq_some_iff.1 step
  cases step
  obtain ⟨length, origin⟩ := of_map_m_eq_some others
  have kept : ∀ {old new : Option Candidate}, settle? s.cursor old = some new →
      old ∈ s.candidate :: s.outer → ∀ key ∈ new, least ≤ key.place := by
    intro old new become member
    rcases settle_eq_some become with ⟨rfl, _⟩ | ⟨rfl, _⟩
    · exact placed.keys _ member
    · simp
  refine grown_of_append placed [] (by simp) ?_ (by simp [length, openings, closings])
  intro later member
  rcases List.mem_cons.1 member with rfl | outside
  · exact kept first (by simp)
  · obtain ⟨old, among, become⟩ := origin later outside
    exact kept become (List.mem_cons_of_mem _ among)

/-- All that happens before a token is read. -/
theorem settled_grown (placed : s.Placed least) {fuel : Nat}
    (settled : (skipBlank fuel s).dropPast? = some t) (column : Nat) :
    Grown least s (t.closeBlocks column) := by
  have skipped := skip_grown placed fuel
  have dropped := skipped.trans (drop_past_grown skipped.placed settled)
  exact dropped.trans (close_grown dropped.placed column)

theorem finish_grows {final : Array Token} (placed : s.Placed least) (step : s.finish? = some final) :
    Grows least s.tokens.toList final.toList := by
  obtain ⟨t, dropped, step⟩ := Option.bind_eq_some_iff.1 step
  cases step
  have closed := close_all_grown placed
  exact (closed.trans (drop_grown closed.placed dropped)).tokens

/-- The tokens read so far grow into those of the text. -/
theorem read_all_grows {fuel : Nat} {final : Array Token} (placed : s.Placed least)
    (run : readAll fuel s = some final) : Grows least s.tokens.toList final.toList := by
  induction fuel generalizing s with
  | zero => cases run
  | succ fuel ih =>
      obtain ⟨t, settled, run⟩ := Option.bind_eq_some_iff.1 run
      have grown := settled_grown placed settled t.cursor.column
      simp only at run
      split at run
      · exact grown.tokens.trans (finish_grows grown.placed run)
      · obtain ⟨u, step, run⟩ := Option.bind_eq_some_iff.1 run
        have further := token_grown grown.placed step
        exact grown.tokens.trans (further.tokens.trans (ih further.placed run))

/-- A comma that is read outside all brackets stays outside them. -/
theorem stray_of_comma {fuel : Nat} {final : Array Token} (bracketed : s.Bracketed)
    (outside : s.outer = []) (step : s.comma? = some t) (run : readAll fuel t = some final) :
    Stray final.toList := by
  obtain ⟨u, dropped, comma⟩ := Option.bind_eq_some_iff.1 step
  obtain ⟨rfl, _⟩ := drop_candidate_eq_some dropped
  cases comma
  have stray : Stray (s.tokens.push .comma).toList := by
    refine ⟨s.tokens.toList, [], by simp, ?_⟩
    simpa [Bracketed, outside] using bracketed
  exact stray.grows (read_all_grows ⟨Nat.zero_le _, fun _ _ _ _ => Nat.zero_le _⟩ run)

/-! ### Behind the end of a block -/

/-- Where no key may begin and none has begun, one token is put at the end, and none that may follow the
end of a block. -/
structure Pushes (s t : Scan) : Prop where
  tokens : ∃ token, t.tokens = s.tokens.push token ∧ mayFollowEnd token = false
  keyless : ∀ candidate ∈ t.candidate :: t.outer, candidate = none

theorem pushes_of_emit {token : Token} (tokens : t.tokens = s.tokens.push token)
    (late : mayFollowEnd token = false) (candidate : t.candidate = none) (outer : t.outer = []) :
    Pushes s t :=
  ⟨⟨token, tokens, late⟩, by simp [candidate, outer]⟩

theorem note_of_closed (closed : s.keyAllowed = false) (noted : s.noteCandidate? = some t) : t = s := by
  rcases note_candidate_eq_some noted with ⟨_, same⟩ | ⟨allowed, _⟩
  · exact same
  · rw [closed] at allowed
    cases allowed

theorem drop_of_none (none : s.candidate = none) (dropped : s.dropCandidate? = some t) : t = s := by
  obtain ⟨rfl, _⟩ := drop_candidate_eq_some dropped
  rw [← none]

theorem pushes_of_token (block : s.outer = []) (closed : s.keyAllowed = false)
    (none : s.candidate = none) (column : s.cursor.column ≠ 0) (step : s.token? = some t) :
    Pushes s t := by
  have refused : (!s.inFlow && !s.keyAllowed) = true := by simp [inFlow, block, closed]
  rw [token_eq] at step
  obtain ⟨act, found, step⟩ := Option.bind_eq_some_iff.1 step
  have fits := fits_of_act found
  cases act with
  | directive => exact absurd fits column
  | documentMark => exact absurd (by simpa using (Bool.and_eq_true_iff.1 fits).1) column
  | openFlow mapping =>
      obtain ⟨u, noted, step⟩ := Option.bind_eq_some_iff.1 step
      cases step
      rw [note_of_closed closed noted]
      exact ⟨⟨_, rfl, by cases mapping <;> rfl⟩, by simp [emitMark, none, block]⟩
  | closeFlow mapping =>
      obtain ⟨u, dropped, step⟩ := Option.bind_eq_some_iff.1 step
      cases step
      rw [drop_of_none none dropped]
      have late : mayFollowEnd (if mapping then .flowMappingEnd else .flowSequenceEnd) = false := by
        cases mapping <;> rfl
      refine pushes_of_emit ?_ late ?_ ?_
      · simp [emitMark, block]
      · simp [emitMark, block, none]
      · simp [emitMark, block]
  | comma =>
      obtain ⟨u, dropped, step⟩ := Option.bind_eq_some_iff.1 step
      cases step
      rw [drop_of_none none dropped]
      exact pushes_of_emit rfl rfl none block
  | item =>
      rw [Act.run?, item?, if_pos refused] at step
      cases step
  | key =>
      rw [Act.run?, key?, if_pos refused] at step
      cases step
  | value =>
      rw [Act.run?, value?, none] at step
      simp only [refused, if_true] at step
      cases step
  | name isAlias =>
      obtain ⟨u, noted, step⟩ := Option.bind_eq_some_iff.1 step
      simp only at step
      split at step
      · cases step
      · split at step
        · cases step
          rw [note_of_closed closed noted]
          exact pushes_of_emit rfl (by cases isAlias <;> rfl) none block
        · cases step
  | tag =>
      obtain ⟨u, noted, step⟩ := Option.bind_eq_some_iff.1 step
      obtain ⟨⟨written, next⟩, _, step⟩ := Option.bind_eq_some_iff.1 step
      cases step
      rw [note_of_closed closed noted]
      exact pushes_of_emit rfl rfl none block
  | block literal =>
      obtain ⟨u, dropped, step⟩ := Option.bind_eq_some_iff.1 step
      obtain ⟨⟨text, next⟩, _, step⟩ := Option.bind_eq_some_iff.1 step
      cases step
      rw [drop_of_none none dropped]
      exact pushes_of_emit rfl rfl none block
  | quoted single =>
      obtain ⟨u, noted, step⟩ := Option.bind_eq_some_iff.1 step
      obtain ⟨⟨text, next⟩, _, step⟩ := Option.bind_eq_some_iff.1 step
      cases step
      rw [note_of_closed closed noted]
      exact pushes_of_emit rfl rfl none block
  | plain =>
      obtain ⟨u, noted, step⟩ := Option.bind_eq_some_iff.1 step
      obtain ⟨read, _, step⟩ := Option.bind_eq_some_iff.1 step
      cases step
      rw [note_of_closed closed noted]
      exact pushes_of_emit rfl rfl none block

/-- The end of a block with something behind it that may not come there. -/
def Broken (tokens : List Token) : Prop :=
  ∃ front token back, tokens = front ++ .blockEnd :: token :: back ∧ mayFollowEnd token = false

/-- Where a block closes within a line, what comes behind it is refused. -/
theorem broken_of_close_blocks {fuel : Nat} {final : Array Token} {column : Nat}
    (block : s.outer = []) (closed : s.keyAllowed = false) (none : s.candidate = none)
    (inside : s.cursor.column ≠ 0) (closes : deeperThan column s.indents ≠ [])
    (step : (s.closeBlocks column).token? = some t) (run : readAll fuel t = some final) :
    Broken final.toList := by
  have open_ : s.inFlow = false := by simp [inFlow, block]
  have shape : s.closeBlocks column = { s with
      indents := s.indents.drop (deeperThan column s.indents).length
      tokens := s.tokens ++ ((deeperThan column s.indents).map fun _ => Token.blockEnd).toArray } := by
    simp [closeBlocks, open_]
  obtain ⟨⟨token, tokens, late⟩, keyless⟩ := pushes_of_token (s := s.closeBlocks column)
    (shape ▸ block) (shape ▸ closed) (shape ▸ none) (shape ▸ inside) step
  have placed : t.Placed t.tokens.size := by
    refine ⟨Nat.le_refl _, fun candidate member key begun => ?_⟩
    rw [keyless candidate member] at begun
    cases begun
  obtain ⟨back, parts⟩ := (read_all_grows placed run).starts_with (by simp)
  obtain ⟨others, first, ends⟩ : ∃ others first, deeperThan column s.indents = others ++ [first] :=
    ⟨_, _, (List.dropLast_concat_getLast closes).symm⟩
  refine ⟨s.tokens.toList ++ others.map fun _ => .blockEnd, token, back, ?_, late⟩
  rw [← parts, tokens, shape, ends]
  simp

end Scan

end MessageSchema.Yaml
