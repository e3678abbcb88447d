import MessageSchema.Proofs.RenamedText

/-!
Where leads are put into a text, whatever characters the targets consist of. A mark stands where the
target follows and a name may begin, and a search from left to right misses no text that has such a
place. A lead is made of identifier characters, so nothing begins inside it or right behind it:
after any number of rules the text is still the first one, with some number of leads in front of
each of its characters.
-/

namespace MessageSchema.Rename

set_option autoImplicit false

open Text

/-- Whether a name may begin behind a text; nothing but the last character decides that. -/
def opens (mayBegin : Bool) : List Char → Bool
  | [] => mayBegin
  | c :: rest => opens (!isIdentChar c) rest

theorem opens_append (mayBegin : Bool) (front back : List Char) :
    opens mayBegin (front ++ back) = opens (opens mayBegin front) back := by
  induction front generalizing mayBegin with
  | nil => rfl
  | cons c rest ih => exact ih _

theorem opens_of_filled (first second : Bool) {text : List Char} (filled : text ≠ []) :
    opens first text = opens second text := by
  cases text with
  | nil => contradiction
  | cons c rest => rfl

theorem opens_cons {first : Bool} {c : Char} {text : List Char}
    (apart : first = true → isIdentChar c = false) (free : opens first text = true)
    (mayBegin : Bool) : opens mayBegin (c :: text) = true := by
  rw [opens]
  cases text with
  | nil => simpa [opens] using apart free
  | cons d rest => exact free

theorem opens_of_ident {word : List Char} (run : IsRun word) (mayBegin : Bool) :
    opens mayBegin word = false := by
  obtain ⟨filled, ident⟩ := run
  obtain ⟨init, last, rfl⟩ := (List.eq_nil_or_concat' word).resolve_left filled
  rw [opens_append, opens, ident last (by simp)]
  rfl

theorem chars_of_marks {target text : List Char} {skip : Nat} {mayBegin : Bool}
    {before after : List (Char × Bool)} {c : Char} {hit : Bool}
    (found : marks target skip mayBegin text = before ++ (c, hit) :: after) :
    text = before.map (·.1) ++ c :: after.map (·.1) := by
  rw [← map_fst_marks target text skip mayBegin, found, List.map_append, List.map_cons]

/-! Marks stand where the target follows at such a place, and the first of them is not missed. -/

theorem mark_spec {target text : List Char} {skip : Nat} {mayBegin : Bool}
    {before after : List (Char × Bool)} {c : Char}
    (found : marks target skip mayBegin text = before ++ (c, true) :: after) :
    target <+: c :: after.map (·.1) ∧ opens mayBegin (before.map (·.1)) = true ∧
      after = marks target (target.length - 1) false (after.map (·.1)) := by
  induction text generalizing skip mayBegin before with
  | nil => cases skip <;> simp [marks] at found
  | cons d rest ih =>
      cases skip with
      | succ skip =>
          cases before with
          | nil => simp [marks] at found
          | cons entry before =>
              rw [marks, List.cons_append, List.cons.injEq] at found
              obtain ⟨begins, free, behind⟩ := ih found.2
              exact ⟨begins, opens_cons (by simp) free mayBegin, behind⟩
      | zero =>
          by_cases hit : (mayBegin && target.isPrefixOf (d :: rest)) = true
          · rw [marks, if_pos hit] at found
            cases before with
            | nil =>
                rw [Bool.and_eq_true, List.isPrefixOf_iff_prefix] at hit
                rw [List.nil_append, List.cons.injEq, Prod.mk.injEq] at found
                obtain ⟨⟨rfl, _⟩, rfl⟩ := found
                rw [map_fst_marks]
                exact ⟨hit.2, hit.1, rfl⟩
            | cons entry before =>
                rw [List.cons_append, List.cons.injEq] at found
                obtain ⟨begins, free, behind⟩ := ih found.2
                exact ⟨begins, opens_cons (by simp) free mayBegin, behind⟩
          · rw [marks, if_neg hit] at found
            cases before with
            | nil => simp at found
            | cons entry before =>
                rw [List.cons_append, List.cons.injEq] at found
                obtain ⟨rfl, later⟩ := found
                obtain ⟨begins, free, behind⟩ := ih later
                exact ⟨begins, opens_cons (by simp) free mayBegin, behind⟩

/-- Where the target stands and a name may begin, there is a mark, or one comes before. -/
theorem mark_of_occurrence {target : List Char} (filled : target ≠ []) {mayBegin : Bool}
    {front back : List Char} (begins : target <+: back) (free : opens mayBegin front = true) :
    ∃ before c after, marks target 0 mayBegin (front ++ back) = before ++ (c, true) :: after ∧
      before.length ≤ front.length := by
  induction front generalizing mayBegin with
  | nil =>
      cases back with
      | nil => exact absurd (List.prefix_nil.1 begins) filled
      | cons c rest =>
          have hit : (mayBegin && target.isPrefixOf (c :: rest)) = true := by
            rw [Bool.and_eq_true, List.isPrefixOf_iff_prefix]
            exact ⟨free, begins⟩
          exact ⟨[], c, _, by rw [List.nil_append, marks, if_pos hit, List.nil_append], le_rfl⟩
  | cons c rest ih =>
      rw [List.cons_append, marks]
      split
      · exact ⟨[], c, _, rfl, Nat.zero_le _⟩
      · obtain ⟨before, d, after, found, early⟩ := @ih (!isIdentChar c) free
        refine ⟨(c, false) :: before, d, after, by rw [found]; rfl, ?_⟩
        simpa using early

theorem expand_append (lead : List Char) (front back : List (Char × Bool)) :
    expand lead (front ++ back) = expand lead front ++ expand lead back := by
  simp [expand]

theorem prefix_expand_of_unmarked (lead : List Char) {front : List Char}
    {marked : List (Char × Bool)} (begins : front <+: marked.map (·.1))
    (unmarked : ∀ before c after, marked = before ++ (c, true) :: after →
      front.length ≤ before.length) :
    front <+: expand lead marked := by
  have none : ∀ entry ∈ marked.take front.length, entry.2 = false := by
    intro entry member
    rw [← Bool.not_eq_true]
    intro hit
    obtain ⟨before, after, split⟩ := List.append_of_mem member
    have whole : marked = before ++ (entry.1, true) :: (after ++ marked.drop front.length) := by
      rw [← hit, ← List.cons_append, ← List.append_assoc, ← split, List.take_append_drop]
    have early := unmarked _ _ _ whole
    have bound := congrArg List.length split
    rw [List.length_take, List.length_append, List.length_cons] at bound
    omega
  have same : (marked.take front.length).map (·.1) = front := by
    rw [List.map_take]
    exact (List.prefix_iff_eq_take.1 begins).symm
  rw [← List.take_append_drop front.length marked, expand_append, expand_unmarked _ _ none, same]
  exact List.prefix_append _ _

/-! Texts with leads, character by character. -/

/-- The text with its leads: as many in front of each character as are counted for it. -/
def spread (lead : List Char) (counted : List (Char × Nat)) : List Char :=
  counted.flatMap fun entry => (List.replicate entry.2 lead).flatten ++ [entry.1]

theorem spread_cons (lead : List Char) (c : Char) (count : Nat) (rest : List (Char × Nat)) :
    spread lead ((c, count) :: rest) =
      (List.replicate count lead).flatten ++ c :: spread lead rest := by
  simp [spread]

theorem spread_zero (lead text : List Char) : spread lead (text.map (·, 0)) = text := by
  induction text with
  | nil => rfl
  | cons c rest ih => rw [List.map_cons, spread_cons, ih]; rfl

theorem prefix_spread (lead : List Char) {front : List Char} {counted : List (Char × Nat)}
    (begins : front <+: counted.map (·.1))
    (bare : ∀ entry ∈ counted.take front.length, entry.2 = 0) : front <+: spread lead counted := by
  induction front generalizing counted with
  | nil => exact List.nil_prefix
  | cons c rest ih =>
      cases counted with
      | nil => simp at begins
      | cons entry others =>
          rcases entry with ⟨d, count⟩
          rw [List.map_cons, List.cons_prefix_cons] at begins
          rw [List.length_cons, List.take_succ_cons, List.forall_mem_cons] at bare
          obtain rfl : count = 0 := bare.1
          rw [spread_cons, begins.1]
          exact List.cons_prefix_cons.2 ⟨rfl, ih begins.2 bare.2⟩

/-- The counts after one more rule. A character gets one lead more where the target stands in the
text with its leads, in front of those that the character has. -/
def recount (lead target : List Char) : Nat → Bool → List (Char × Nat) → List (Char × Nat)
  | _, _, [] => []
  | skip, mayBegin, (c, count) :: rest =>
      let hit := skip == 0 && mayBegin && target.isPrefixOf (spread lead ((c, count) :: rest))
      let taken := if hit then target.length else skip
      let width := count * lead.length + 1
      (c, if hit then count + 1 else count) ::
        recount lead target (taken - width) (decide (taken < width) && !isIdentChar c) rest

theorem expand_cons (lead : List Char) (c : Char) (hit : Bool) (rest : List (Char × Bool)) :
    expand lead ((c, hit) :: rest) = (if hit then lead else []) ++ c :: expand lead rest := by
  cases hit <;> simp [expand]

/-- Nothing is put inside a lead or right behind it. -/
theorem expand_marks_within {lead target word : List Char}
    (ident : ∀ c ∈ word, isIdentChar c = true) (skip : Nat) (c : Char) (text : List Char) :
    expand lead (marks target skip false (word ++ c :: text)) =
      word ++ c :: expand lead (marks target (skip - (word.length + 1))
        (decide (skip < word.length + 1) && !isIdentChar c) text) := by
  induction word generalizing skip with
  | nil => cases skip <;> simp [marks, expand_cons]
  | cons d rest ih =>
      have first : isIdentChar d = true := ident d (by simp)
      have others := ih fun e member => ident e (List.mem_cons_of_mem _ member)
      cases skip with
      | zero => simp [marks, expand_cons, first, others 0]
      | succ skip => simp [marks, expand_cons, others skip]

/-- A character with its leads gets at most one lead more, in front of all of them. -/
theorem expand_marks_block {lead target word : List Char} (filled : target ≠ [])
    (ident : ∀ c ∈ word, isIdentChar c = true) (skip : Nat) (mayBegin : Bool) (c : Char)
    (text : List Char) :
    let hit := skip == 0 && mayBegin && target.isPrefixOf (word ++ c :: text)
    let taken := if hit then target.length else skip
    expand lead (marks target skip mayBegin (word ++ c :: text)) =
      (if hit then lead else []) ++ word ++ c ::
        expand lead (marks target (taken - (word.length + 1))
          (decide (taken < word.length + 1) && !isIdentChar c) text) := by
  intro hit taken
  obtain ⟨size, length⟩ := Nat.exists_eq_succ_of_ne_zero (List.length_pos_iff.2 filled).ne'
  cases word with
  | nil =>
      cases skip with
      | succ skip => simp [hit, taken, marks, expand_cons]
      | zero =>
          cases met : (mayBegin && target.isPrefixOf (c :: text)) <;>
            simp [hit, taken, marks, met, expand_cons, length]
  | cons d rest =>
      have first : isIdentChar d = true := ident d (by simp)
      have others := @expand_marks_within lead target rest
        fun e member => ident e (List.mem_cons_of_mem d member)
      cases skip with
      | succ skip => simp [hit, taken, marks, expand_cons, others]
      | zero =>
          cases met : (mayBegin && target.isPrefixOf (d :: (rest ++ c :: text))) <;>
            simp [hit, taken, marks, met, expand_cons, length, first, others]

theorem ident_leads {lead : List Char} (ident : ∀ c ∈ lead, isIdentChar c = true) (count : Nat) :
    ∀ c ∈ (List.replicate count lead).flatten, isIdentChar c = true := by
  intro c member
  obtain ⟨word, listed, inside⟩ := List.mem_flatten.1 member
  exact ident c (List.eq_of_mem_replicate listed ▸ inside)

/-- What a rule does to a text with leads is to count some of them once more. -/
theorem expand_marks_spread {lead target : List Char} (filled : target ≠ [])
    (ident : ∀ c ∈ lead, isIdentChar c = true) (skip : Nat) (mayBegin : Bool)
    (counted : List (Char × Nat)) :
    expand lead (marks target skip mayBegin (spread lead counted)) =
      spread lead (recount lead target skip mayBegin counted) := by
  induction counted generalizing skip mayBegin with
  | nil => cases skip <;> rfl
  | cons entry rest ih =>
      rcases entry with ⟨c, count⟩
      have width : (List.replicate count lead).flatten.length = count * lead.length := by simp
      have block := @expand_marks_block lead target _ filled (ident_leads ident count) skip mayBegin
        c (spread lead rest)
      simp only [width] at block
      rw [recount, spread_cons, spread_cons, block, ih]
      cases (skip == 0 && mayBegin && target.isPrefixOf
          ((List.replicate count lead).flatten ++ c :: spread lead rest)) with
      | true => simp [List.replicate_succ]
      | false => simp

theorem map_fst_recount (lead target : List Char) (skip : Nat) (mayBegin : Bool)
    (counted : List (Char × Nat)) :
    (recount lead target skip mayBegin counted).map (·.1) = counted.map (·.1) := by
  induction counted generalizing skip mayBegin with
  | nil => rfl
  | cons entry rest ih => rw [recount, List.map_cons, List.map_cons, ih]

/-- A count stays, or it grows by one where the target stands in the text with its leads and a name
may begin. The counts behind are those of a search that goes on there. -/
theorem recount_spec {lead target : List Char} {skip : Nat} {mayBegin : Bool}
    {counted before' after' : List (Char × Nat)} {c : Char} {count' : Nat}
    (found : recount lead target skip mayBegin counted = before' ++ (c, count') :: after') :
    ∃ before count after skip' mayBegin', counted = before ++ (c, count) :: after ∧
      before.map (·.1) = before'.map (·.1) ∧
      after' = recount lead target skip' mayBegin' after ∧
      (mayBegin' = true → isIdentChar c = false) ∧
      (count' = count ∨ count' = count + 1 ∧ target <+: spread lead ((c, count) :: after) ∧
        opens mayBegin (before.map (·.1)) = true ∧
        skip' = target.length - (count * lead.length + 1)) := by
  induction counted generalizing skip mayBegin before' with
  | nil => simp [recount] at found
  | cons entry rest ih =>
      rcases entry with ⟨d, own⟩
      rw [recount] at found
      cases before' with
      | nil =>
          rw [List.nil_append, List.cons.injEq, Prod.mk.injEq] at found
          obtain ⟨⟨rfl, grown⟩, behind⟩ := found
          refine ⟨[], own, rest, _, _, rfl, rfl, behind.symm, by simp, ?_⟩
          split at grown
          · next hit =>
              simp only [Bool.and_eq_true, List.isPrefixOf_iff_prefix] at hit
              exact Or.inr ⟨grown.symm, hit.2, hit.1.2, by simp [hit]⟩
          · exact Or.inl grown.symm
      | cons entry before' =>
          rw [List.cons_append, List.cons.injEq] at found
          obtain ⟨before, count, after, skip', mayBegin', split, chars, behind, apart, grown⟩ :=
            ih found.2
          refine ⟨(d, own) :: before, count, after, skip', mayBegin', by rw [split]; rfl, ?_,
            behind, apart, ?_⟩
          · rw [List.map_cons, List.map_cons, chars, ← found.1]
          · refine grown.imp_right fun ⟨more, begins, free, passed⟩ => ⟨more, begins, ?_, passed⟩
            exact opens_cons (by simp) free mayBegin

/-- Leads stand only where a name may begin. -/
def Bounded (counted : List (Char × Nat)) : Prop :=
  ∀ before c count after, counted = before ++ (c, count) :: after → count ≠ 0 →
    opens true (before.map (·.1)) = true

theorem bounded_zero (text : List Char) : Bounded (text.map (·, 0)) := by
  intro before c count after split some
  have listed : (c, count) ∈ text.map (·, 0) := by simp [split]
  obtain ⟨d, _, same⟩ := List.mem_map.1 listed
  exact absurd (Prod.mk.inj same).2.symm some

namespace Rule

def recount (rule : Rule) (counted : List (Char × Nat)) : List (Char × Nat) :=
  Rename.recount rule.lead.toList rule.target.toList 0 true counted

theorem renamed_spread {rule : Rule} (filled : rule.target ≠ "")
    (ident : ∀ c ∈ rule.lead.toList, isIdentChar c = true) (counted : List (Char × Nat)) :
    rule.renamed (spread rule.lead.toList counted) =
      spread rule.lead.toList (rule.recount counted) :=
  expand_marks_spread (String.toList_eq_nil_iff.not.2 filled) ident 0 true counted

theorem bounded_recount (rule : Rule) {counted : List (Char × Nat)} (bounded : Bounded counted) :
    Bounded (rule.recount counted) := by
  intro before' c count' after' found some
  obtain ⟨before, count, after, _, _, split, chars, _, _, grown⟩ := recount_spec found
  rw [← chars]
  rcases grown with rfl | ⟨_, _, free, _⟩
  · exact bounded before c _ after split some
  · exact free

end Rule

namespace Rules

def recount (rules : Rules) (counted : List (Char × Nat)) : List (Char × Nat) :=
  rules.foldl (fun counted rule => rule.recount counted) counted

theorem value_apply_chars_cons (rule : Rule) (rest : Rules) (text : List Char) :
    (applyChars (rule :: rest) text).value = (applyChars rest (rule.renamed text)).value := by
  rw [← rule.value_apply_text]
  rfl

theorem to_list_value_apply_text (rules : Rules) (text : String) :
    (rules.applyText text).value.toList = (rules.applyChars text.toList).value :=
  String.toList_ofList

theorem value_apply_chars_spread {lead : String} {rules : Rules}
    (ident : ∀ c ∈ lead.toList, isIdentChar c = true) (leads : ∀ rule ∈ rules, rule.lead = lead)
    (filled : ∀ rule ∈ rules, rule.target ≠ "") (counted : List (Char × Nat)) :
    (rules.applyChars (spread lead.toList counted)).value =
      spread lead.toList (rules.recount counted) := by
  induction rules generalizing counted with
  | nil => rfl
  | cons rule rest ih =>
      obtain ⟨own, others⟩ := List.forall_mem_cons.1 leads
      obtain ⟨some, more⟩ := List.forall_mem_cons.1 filled
      subst own
      rw [value_apply_chars_cons, rule.renamed_spread some ident, ih others more]
      rfl

theorem map_fst_recount (rules : Rules) (counted : List (Char × Nat)) :
    (rules.recount counted).map (·.1) = counted.map (·.1) := by
  induction rules generalizing counted with
  | nil => rfl
  | cons rule rest ih => exact (ih _).trans (Rename.map_fst_recount _ _ _ _ counted)

theorem bounded_recount (rules : Rules) {counted : List (Char × Nat)} (bounded : Bounded counted) :
    Bounded (rules.recount counted) := by
  induction rules generalizing counted with
  | nil => exact bounded
  | cons rule rest ih => exact ih (rule.bounded_recount bounded)

end Rules

end MessageSchema.Rename
