import MessageSchema.Proofs.InsertedLeads
import MessageSchema.Proofs.LongestTargets

/-!
What becomes of an occurrence once a rule has handled it. A later rule disturbs it in two ways: its
target begins the new name, so that the lead is put there twice, or its target begins inside the
occurrence, behind a character that is part of no identifier. Longest targets first excludes
neither. Without such a pair of rules every occurrence is spared wherever it stands; with one there
is a text on which it is not.
-/

namespace MessageSchema.Rename

set_option autoImplicit false

open Text

/-- The size by which targets are ordered. -/
def octets (text : List Char) : Nat := (String.ofList text).utf8ByteSize

theorem octets_append (front back : List Char) :
    octets (front ++ back) = octets front + octets back := by
  rw [octets, String.ofList_append, String.utf8ByteSize_append, octets, octets]

theorem octets_to_list (text : String) : octets text.toList = text.utf8ByteSize := by
  rw [octets, String.ofList_toList]

theorem octets_pos {text : List Char} (filled : text ≠ []) : 0 < octets text := by
  rw [Nat.pos_iff_ne_zero, octets, ne_eq, String.utf8ByteSize_eq_zero_iff,
    String.ofList_eq_empty_iff]
  exact filled

theorem octets_le_of_prefix {front text : List Char} (begins : front <+: text) :
    octets front ≤ octets text := by
  obtain ⟨more, rfl⟩ := begins
  rw [octets_append]
  exact Nat.le_add_right _ _

/-- An occurrence of the inner text may begin inside one of the outer: at a place within the outer
where a name may begin, the two agree as far as both go. -/
def BeginsInside (inner outer : List Char) : Prop :=
  ∃ front back, outer = front ++ back ∧ front ≠ [] ∧ back ≠ [] ∧ opens true front = true ∧
    (inner <+: back ∨ back <+: inner)

theorem begins_inside_iff (inner outer : List Char) :
    BeginsInside inner outer ↔ ∃ size, size < outer.length ∧ 0 < size ∧
      opens true (outer.take size) = true ∧
        (inner <+: outer.drop size ∨ outer.drop size <+: inner) := by
  constructor
  · rintro ⟨front, back, rfl, given, some, free, overlap⟩
    refine ⟨front.length, ?_, List.length_pos_iff.2 given, ?_⟩
    · have := List.length_pos_iff.2 some
      rw [List.length_append]
      omega
    · rw [List.take_left, List.drop_left]
      exact ⟨free, overlap⟩
  · rintro ⟨size, short, positive, free, overlap⟩
    refine ⟨outer.take size, outer.drop size, (List.take_append_drop size outer).symm, ?_, ?_, free,
      overlap⟩
    · rw [← List.length_pos_iff, List.length_take]
      omega
    · rw [← List.length_pos_iff, List.length_drop]
      omega

instance (inner outer : List Char) : Decidable (BeginsInside inner outer) :=
  decidable_of_iff _ (begins_inside_iff inner outer).symm

theorem not_begins_inside_of_ident {outer : List Char} (ident : ∀ c ∈ outer, isIdentChar c = true)
    (inner : List Char) : ¬BeginsInside inner outer := by
  rintro ⟨front, back, rfl, filled, _, free, _⟩
  have run : IsRun front := ⟨filled, fun c member => ident c (List.mem_append_left _ member)⟩
  rw [opens_of_ident run] at free
  contradiction

/-- A search for the inner text that begins within the outer one finds nothing before it ends. -/
theorem length_le_of_mark {inner front back text : List Char}
    (outside : ¬BeginsInside inner (front ++ back)) (filled : front ≠ [])
    (begins : back <+: text) {skip : Nat} {mayBegin : Bool}
    (free : mayBegin = true → opens true front = true)
    {before after : List (Char × Bool)} {c : Char}
    (found : marks inner skip mayBegin text = before ++ (c, true) :: after) :
    back.length ≤ before.length := by
  by_contra short
  obtain ⟨met, there, _⟩ := mark_spec found
  have chars := chars_of_marks found
  have early : before.map (·.1) <+: back := by
    refine List.prefix_of_prefix_length_le ⟨_, chars.symm⟩ begins ?_
    rw [List.length_map]
    omega
  obtain ⟨more, rfl⟩ := early
  rw [chars, List.prefix_append_right_inj] at begins
  refine outside ⟨front ++ before.map (·.1), more, by rw [List.append_assoc], by simp [filled], ?_,
    ?_, List.prefix_or_prefix_of_prefix met begins⟩
  · rintro rfl
    simp at short
  · rw [opens_append]
    cases before with
    | nil => exact free there
    | cons entry others =>
        rw [List.map_cons] at there ⊢
        rwa [opens_of_filled _ mayBegin (by simp)]

namespace Rule

/-- A later rule leaves alone what an earlier one has made of an occurrence. -/
structure LeavesAlone (earlier later : Rule) : Prop where
  start : ¬later.target.toList <+: earlier.replacement.toList
  inside : ¬BeginsInside later.target.toList earlier.target.toList

instance (earlier later : Rule) : Decidable (earlier.LeavesAlone later) :=
  decidable_of_iff (¬later.target.toList <+: earlier.replacement.toList ∧
      ¬BeginsInside later.target.toList earlier.target.toList)
    ⟨fun ⟨start, inside⟩ => ⟨start, inside⟩, fun ⟨start, inside⟩ => ⟨start, inside⟩⟩

end Rule

namespace Rules

/-- The rules mark nothing of a word, neither its first character nor one inside, from one rule to
the next in what has become of the text around it. -/
def Spares : Rules → List Char → List Char → List Char → Prop
  | [], _, _, _ => True
  | rule :: rest, front, word, back =>
      let marked := rule.marked (front ++ word ++ back)
      (∀ entry ∈ (marked.drop front.length).take word.length, entry.2 = false) ∧
        Spares rest (expand rule.lead.toList (marked.take front.length)) word
          (expand rule.lead.toList (marked.drop (front.length + word.length)))

/-- Whatever occurrence a rule handles, the rules after it spare its new name. -/
def KeepsHandled : Rules → List Char → Prop
  | [], _ => True
  | rule :: rest, text =>
      (∀ before c after, rule.marked text = before ++ (c, true) :: after →
        Spares rest (expand rule.lead.toList (before)) rule.replacement.toList
          (expand rule.lead.toList (after.drop (rule.target.length - 1)))) ∧
        KeepsHandled rest (rule.renamed text)

/-- Every rule leaves alone what the rules before it have made. -/
def Orderly (rules : Rules) : Prop := rules.Pairwise Rule.LeavesAlone

instance (rules : Rules) : Decidable rules.Orderly :=
  inferInstanceAs (Decidable (rules.Pairwise Rule.LeavesAlone))

end Rules

theorem unmarked_of_skip (target : List Char) (skip : Nat) (mayBegin : Bool) (text : List Char) :
    ∀ entry ∈ (marks target skip mayBegin text).take skip, entry.2 = false := by
  induction text generalizing skip mayBegin with
  | nil => cases skip <;> simp [marks]
  | cons c rest ih =>
      cases skip with
      | zero => simp
      | succ skip =>
          rw [marks, List.take_succ_cons, List.forall_mem_cons]
          exact ⟨rfl, ih skip false⟩

theorem split_of_mem_window {α : Type} {items : List α} {lower width : Nat} {entry : α}
    (member : entry ∈ (items.drop lower).take width) :
    ∃ before after, items = before ++ entry :: after ∧ lower ≤ before.length ∧
      before.length < lower + width := by
  obtain ⟨inside, behind, split⟩ := List.append_of_mem member
  refine ⟨items.take lower ++ inside, behind ++ (items.drop lower).drop width, ?_, ?_⟩
  · rw [List.append_assoc, ← List.cons_append, ← List.append_assoc inside, ← split,
      List.take_append_drop, List.take_append_drop]
  · have sizes := congrArg List.length split
    simp only [List.length_take, List.length_drop, List.length_append, List.length_cons] at sizes ⊢
    omega

namespace Rule

theorem length_le_of_leaves_alone {earlier later : Rule} (run : IsRun earlier.lead.toList)
    (clear : earlier.LeavesAlone later)
    (shorter : later.target.utf8ByteSize ≤ earlier.target.utf8ByteSize) {front back : List Char}
    {before after : List (Char × Bool)} {c : Char}
    (found : later.marked (front ++ earlier.replacement.toList ++ back) =
      before ++ (c, true) :: after) (lower : front.length ≤ before.length) :
    front.length + earlier.replacement.toList.length ≤ before.length := by
  by_contra upper
  obtain ⟨met, free, _⟩ := mark_spec found
  have chars := chars_of_marks found
  rw [List.append_assoc] at chars
  -- The mark stands in the word, between a part of it and more of it.
  obtain ⟨inside, split⟩ : front <+: before.map (·.1) :=
    List.prefix_of_prefix_length_le ⟨_, chars⟩ (List.prefix_append _ _) (by simpa using lower)
  rw [← split, List.append_assoc, List.append_cancel_left_eq] at chars
  have size := congrArg List.length split
  rw [List.length_append, List.length_map] at size
  obtain ⟨more, word⟩ : inside <+: earlier.replacement.toList :=
    List.prefix_of_prefix_length_le ⟨_, chars.symm⟩ (List.prefix_append _ _) (by omega)
  have some : more ≠ [] := by
    rintro rfl
    rw [List.append_nil] at word
    rw [← word] at upper
    omega
  rw [← word, List.append_assoc, List.append_cancel_left_eq] at chars
  have begins : more <+: c :: after.map (·.1) := ⟨_, chars⟩
  rw [← split, opens_append] at free
  have parts : earlier.lead.toList ++ earlier.target.toList = inside ++ more := by
    rw [word, replacement, String.toList_append]
  cases within : inside with
  | nil =>
      rw [within, List.nil_append] at parts word
      rcases List.prefix_or_prefix_of_prefix met begins with doubled | covered
      · exact clear.start (word ▸ doubled)
      · have sizes := octets_le_of_prefix covered
        have lead := octets_pos run.1
        rw [← parts, octets_append] at sizes
        simp only [octets_to_list] at sizes lead
        omega
  | cons d rest =>
      have filled : inside ≠ [] := by simp [within]
      rw [opens_of_filled _ true filled] at free
      rcases List.append_eq_append_iff.1 parts with ⟨front, lead, target⟩ | ⟨rest, lead, _⟩
      · rw [lead, opens_append] at free
        by_cases blank : front = []
        · rw [blank, opens, opens_of_ident run] at free
          contradiction
        · rw [opens_of_filled _ true blank] at free
          exact clear.inside ⟨front, more, target, blank, some, free,
            List.prefix_or_prefix_of_prefix met begins⟩
      · have run' : IsRun inside :=
          ⟨filled, fun c member => run.2 c (lead ▸ List.mem_append_left rest member)⟩
        rw [opens_of_ident run'] at free
        contradiction

end Rule

namespace Rules

/-- What a list of rules is that was made of targets: longest first, none twice and none empty, with
one lead of identifier characters. -/
structure Graded (rules : Rules) : Prop where
  leads : ∀ first ∈ rules, ∀ second ∈ rules, first.lead = second.lead
  run : ∀ rule ∈ rules, IsRun rule.lead.toList
  filled : ∀ rule ∈ rules, rule.target ≠ ""
  sorted : rules.Pairwise fun a b => b.target.utf8ByteSize ≤ a.target.utf8ByteSize
  distinct : rules.Nodup

theorem Graded.tail {rule : Rule} {rest : Rules} (graded : Graded (rule :: rest)) :
    Graded rest where
  leads first member second member' := graded.leads first (List.mem_cons_of_mem _ member) second
    (List.mem_cons_of_mem _ member')
  run rule member := graded.run rule (List.mem_cons_of_mem _ member)
  filled rule member := graded.filled rule (List.mem_cons_of_mem _ member)
  sorted := (List.pairwise_cons.1 graded.sorted).2
  distinct := (List.nodup_cons.1 graded.distinct).2

theorem Graded.target_ne {rules : Rules} (graded : rules.Graded) {first second : Rule}
    (member : first ∈ rules) (member' : second ∈ rules) (different : first ≠ second) :
    first.target ≠ second.target := fun same =>
  different (Rule.eq_of_parts same (graded.leads first member second member'))

theorem Graded.around {before after : Rules} {rule : Rule}
    (graded : Graded (before ++ rule :: after)) :
    (∀ first ∈ before, ∀ second ∈ rule :: after,
      second.target.utf8ByteSize ≤ first.target.utf8ByteSize ∧ first.target ≠ second.target) ∧
    ∀ second ∈ after, second.target.utf8ByteSize ≤ rule.target.utf8ByteSize := by
  obtain ⟨_, sorted, across⟩ := List.pairwise_append.1 graded.sorted
  refine ⟨fun first member second member' => ⟨across first member second member', ?_⟩,
    (List.pairwise_cons.1 sorted).1⟩
  refine graded.target_ne (List.mem_append_left _ member) (List.mem_append_right _ member') ?_
  rintro rfl
  exact List.disjoint_of_nodup_append graded.distinct member member'

/-! Without a pair of rules that disturbs, all occurrences are spared, wherever they stand. -/

theorem spares_of_leaves_alone {earlier : Rule} (run : IsRun earlier.lead.toList) {later : Rules}
    (clear : ∀ rule ∈ later, earlier.LeavesAlone rule)
    (shorter : ∀ rule ∈ later, rule.target.utf8ByteSize ≤ earlier.target.utf8ByteSize)
    (front back : List Char) : later.Spares front earlier.replacement.toList back := by
  induction later generalizing front back with
  | nil => trivial
  | cons rule rest ih =>
      obtain ⟨first, others⟩ := List.forall_mem_cons.1 clear
      obtain ⟨size, sizes⟩ := List.forall_mem_cons.1 shorter
      refine ⟨?_, ih others sizes _ _⟩
      intro entry member
      obtain ⟨before, after, split, lower, upper⟩ := split_of_mem_window member
      rw [← Bool.not_eq_true]
      intro hit
      rw [show entry = (entry.1, true) from Prod.ext rfl hit] at split
      have outside := Rule.length_le_of_leaves_alone run first size split lower
      omega

theorem keeps_handled_of_orderly {rules : Rules} (graded : rules.Graded) (orderly : rules.Orderly)
    (text : List Char) : rules.KeepsHandled text := by
  induction rules generalizing text with
  | nil => trivial
  | cons rule rest ih =>
      obtain ⟨clear, others⟩ := List.pairwise_cons.1 orderly
      exact ⟨fun before c after _ => spares_of_leaves_alone (graded.run rule (by simp)) clear
        (List.pairwise_cons.1 graded.sorted).1 _ _, ih graded.tail others _⟩

/-! With such a pair there is a text that consists of the earlier target and what the later one
needs besides. No rule before the earlier one meets it, and the rules between meet at most its new
name. -/

theorem keeps_handled_of_append {before rest : Rules} {text : List Char}
    (keeps : KeepsHandled (before ++ rest) text)
    (untouched : ∀ rule ∈ before, rule.occurrences text = 0) : rest.KeepsHandled text := by
  induction before with
  | nil => exact keeps
  | cons rule others ih =>
      obtain ⟨first, more⟩ := List.forall_mem_cons.1 untouched
      have kept := keeps.2
      rw [rule.renamed_of_no_occurrence text first] at kept
      exact ih kept more

theorem occurrences_eq_zero {rule : Rule} {text : List Char}
    (none : ∀ before c after, rule.marked text ≠ before ++ (c, true) :: after) :
    rule.occurrences text = 0 := by
  refine List.countP_eq_zero.2 fun entry member hit => ?_
  obtain ⟨before, after, split⟩ := List.append_of_mem member
  exact none before entry.1 after (split.trans (by rw [← hit]))

/-- A target finds no place in a shorter end of a text. -/
theorem expand_drop_of_short (lead : List Char) {target word back : List Char} (skip : Nat)
    (mayBegin : Bool) (short : octets back < octets target) :
    expand lead ((marks target skip mayBegin (word ++ back)).drop word.length) = back := by
  have none : ∀ entry ∈ (marks target skip mayBegin (word ++ back)).drop word.length,
      entry.2 = false := by
    intro entry member
    rw [← Bool.not_eq_true]
    intro hit
    rw [← (List.drop _ _).take_length] at member
    obtain ⟨before, after, split, lower, _⟩ := split_of_mem_window member
    rw [show entry = (entry.1, true) from Prod.ext rfl hit] at split
    have within : entry.1 :: after.map (·.1) <:+ back := by
      refine List.suffix_of_suffix_length_le ⟨_, (chars_of_marks split).symm⟩
        (List.suffix_append word back) ?_
      have size := congrArg List.length (chars_of_marks split)
      simp only [List.length_append, List.length_map, List.length_cons] at size ⊢
      omega
    obtain ⟨rest, rfl⟩ := within
    have begins := octets_le_of_prefix (mark_spec split).1
    rw [octets_append] at short
    omega
  rw [expand_unmarked _ _ none, List.map_drop, map_fst_marks, List.drop_left]

/-- While the rules spare a word and find nothing in what follows it, the text stays as it is. -/
theorem spares_of_append {between rest : Rules} {word back : List Char}
    (spares : Spares (between ++ rest) [] word back)
    (short : ∀ rule ∈ between, octets back < octets rule.target.toList) :
    rest.Spares [] word back := by
  induction between with
  | nil => exact spares
  | cons rule others ih =>
      obtain ⟨first, more⟩ := List.forall_mem_cons.1 short
      obtain ⟨_, later⟩ := spares
      refine ih ?_ more
      have kept := @expand_drop_of_short rule.lead.toList _ word _ 0 true first
      simp only [Rule.marked, List.length_nil, Nat.zero_add, List.take_zero, List.nil_append, kept]
        at later
      exact later

/-- What comes before the earlier of two rules does not meet a text, and the rules spare what the
earlier one makes of its beginning: then the later one finds nothing in that. -/
theorem length_le_of_keeps_handled {before between rest : Rules} {earlier later : Rule}
    {back : List Char} (filled : earlier.target ≠ "")
    (keeps : KeepsHandled (before ++ earlier :: (between ++ later :: rest))
      (earlier.target.toList ++ back))
    (untouched : ∀ rule ∈ before, rule.occurrences (earlier.target.toList ++ back) = 0)
    (short : ∀ rule ∈ earlier :: between, octets back < octets rule.target.toList)
    {front after : List (Char × Bool)} {c : Char}
    (found : later.marked (earlier.replacement.toList ++ back) = front ++ (c, true) :: after) :
    earlier.replacement.toList.length ≤ front.length := by
  obtain ⟨first, more⟩ := List.forall_mem_cons.1 short
  obtain ⟨handled, _⟩ := keeps_handled_of_append keeps untouched
  -- The occurrence with which the text begins is handled, and what follows it is too short.
  obtain ⟨none, d, behind, mark, blank⟩ := mark_of_occurrence
    (String.toList_eq_nil_iff.not.2 filled) (List.prefix_append earlier.target.toList back)
    (rfl : opens true [] = true)
  obtain rfl : none = [] := by simpa using blank
  have kept := @expand_drop_of_short earlier.lead.toList _ earlier.target.toList _ 0 true first
  obtain ⟨size, length⟩ := Nat.exists_eq_succ_of_ne_zero
    (List.length_pos_iff.2 (String.toList_eq_nil_iff.not.2 filled)).ne'
  rw [List.nil_append] at mark
  rw [mark, List.nil_append, length, List.drop_succ_cons] at kept
  have start := handled [] d behind mark
  rw [← String.length_toList, length, Nat.succ_sub_one, kept] at start
  obtain ⟨spared, _⟩ := spares_of_append start more
  by_contra inside
  obtain ⟨width, whole⟩ := Nat.exists_eq_add_of_lt (Nat.lt_of_not_le inside)
  rw [List.nil_append, found, List.length_nil, List.drop_zero, whole, Nat.add_assoc,
    List.take_length_add_append, List.take_succ_cons] at spared
  exact Bool.noConfusion (spared (c, true) (by simp))

theorem eq_of_octets {front text : List Char} (begins : front <+: text)
    (large : octets text ≤ octets front) : front = text := by
  obtain ⟨more, rfl⟩ := begins
  rw [octets_append] at large
  by_cases blank : more = []
  · simp [blank]
  · have some := octets_pos blank
    omega

theorem eq_of_suffix {target text word : List Char} (begins : target <+: text)
    (ends : text <:+ word) (large : octets word ≤ octets target) : target = word := by
  obtain ⟨front, rfl⟩ := ends
  have sizes := octets_le_of_prefix begins
  rw [octets_append] at large
  by_cases blank : front = []
  · rw [blank] at large ⊢
    exact eq_of_octets begins (by simpa [octets] using large)
  · have some := octets_pos blank
    omega

theorem untouched_of_target {earlier later : Rule} (different : earlier.target ≠ later.target)
    (larger : later.target.utf8ByteSize ≤ earlier.target.utf8ByteSize) :
    earlier.occurrences (later.target.toList ++ []) = 0 := by
  refine occurrences_eq_zero fun before c after found => different (String.toList_inj.1 ?_)
  refine eq_of_suffix (mark_spec found).1 ⟨_, (chars_of_marks found).symm.trans ?_⟩ ?_
  · rw [List.append_nil]
  · rwa [octets_to_list, octets_to_list]

/-- Nor does it meet two later targets that overlap, unless the last begins inside its own. -/
theorem untouched_of_overlap {first second third : Rule} {front more back : List Char}
    (outer : second.target.toList = front ++ more) (inner : third.target.toList = more ++ back)
    (some : more ≠ []) (free : opens true front = true)
    (outside : ¬BeginsInside third.target.toList first.target.toList)
    (different : first.target ≠ third.target)
    (large : second.target.utf8ByteSize ≤ first.target.utf8ByteSize)
    (large' : third.target.utf8ByteSize ≤ first.target.utf8ByteSize) :
    first.occurrences (second.target.toList ++ back) = 0 := by
  refine occurrences_eq_zero fun before c after found => ?_
  obtain ⟨begins, _, _⟩ := mark_spec found
  have chars := chars_of_marks found
  rw [outer, List.append_assoc, ← inner] at chars
  rw [← octets_to_list, ← octets_to_list] at large large'
  rcases List.append_eq_append_iff.1 chars with ⟨passed, _, within⟩ | ⟨rest, split, behind⟩
  · exact different (String.toList_inj.1 (eq_of_suffix begins ⟨_, within.symm⟩ large'))
  · rw [behind] at begins
    by_cases blank : rest = []
    · rw [blank, List.nil_append] at begins
      exact different (String.toList_inj.1 (eq_of_octets begins large'))
    -- The first target is too large to end within the part of the second that comes before.
    · have size := octets_pos some
      rw [outer, split, octets_append, octets_append] at large
      rcases List.prefix_or_prefix_of_prefix begins (List.prefix_append rest _) with short | long
      · have bound := octets_le_of_prefix short
        omega
      · obtain ⟨tail, target⟩ := long
        rw [← target, List.prefix_append_right_inj] at begins
        refine outside ⟨rest, tail, target.symm, blank, ?_, ?_, Or.inr begins⟩
        · rintro rfl
          rw [← target, List.append_nil] at large
          omega
        · rw [split, opens_append, opens_of_filled _ true blank] at free
          exact free

section

variable {before between rest : Rules} {earlier later : Rule}
  (graded : Graded (before ++ earlier :: (between ++ later :: rest)))
  (keeps : ∀ text, KeepsHandled (before ++ earlier :: (between ++ later :: rest)) text)

include graded

theorem needs_text : ∀ rule ∈ earlier :: between, octets [] < octets rule.target.toList := by
  intro rule member
  have listed : rule ∈ before ++ earlier :: (between ++ later :: rest) :=
    List.mem_append_right _ (List.mem_append_left _ member)
  exact octets_pos (String.toList_eq_nil_iff.not.2 (graded.filled rule listed))

theorem untouched_before :
    ∀ rule ∈ before, rule.occurrences (earlier.target.toList ++ []) = 0 := by
  intro rule member
  obtain ⟨large, different⟩ := graded.around.1 rule member earlier (by simp)
  exact untouched_of_target different large

include keeps

/-- The earlier target alone is a text on which a doubled lead would show. -/
theorem start_of_keeps_handled : ¬later.target.toList <+: earlier.replacement.toList := by
  intro doubled
  have needed := String.toList_eq_nil_iff.not.2 (graded.filled later (by simp))
  obtain ⟨found, c, behind, mark, early⟩ := mark_of_occurrence needed
    (doubled.trans (List.prefix_append _ [])) (rfl : opens true [] = true)
  have outside := length_le_of_keeps_handled (graded.filled earlier (by simp)) (keeps _)
    (untouched_before graded) (needs_text graded) mark
  have lead := List.length_pos_iff.2 (graded.run earlier (by simp)).1
  rw [Rule.replacement, String.toList_append, List.length_append] at outside
  rw [List.length_nil] at early
  omega

theorem inside_of_keeps_handled
    (clear : ∀ rule ∈ before, ¬BeginsInside later.target.toList rule.target.toList) :
    ¬BeginsInside later.target.toList earlier.target.toList := by
  rintro ⟨front, more, outer, given, some, free, overlap⟩
  obtain ⟨larger, _⟩ := graded.around
  have needed := String.toList_eq_nil_iff.not.2 (graded.filled later (by simp))
  -- The text is the earlier target, and what the later one needs besides to stand in it.
  obtain ⟨back, fits, short, untouched⟩ : ∃ back, later.target.toList <+: more ++ back ∧
      (∀ rule ∈ earlier :: between, octets back < octets rule.target.toList) ∧
      ∀ rule ∈ before, rule.occurrences (earlier.target.toList ++ back) = 0 := by
    rcases overlap with within | ⟨back, inner⟩
    · exact ⟨[], by rwa [List.append_nil], needs_text graded, untouched_before graded⟩
    · refine ⟨back, inner ▸ List.prefix_rfl, ?_, ?_⟩
      · intro rule member
        rw [← List.cons_append, ← List.append_assoc] at graded
        have size := (graded.around.1 rule (List.mem_append_right _ member) later (by simp)).1
        have positive := octets_pos some
        rw [← octets_to_list, ← octets_to_list, ← inner, octets_append] at size
        omega
      · intro rule member
        obtain ⟨large, _⟩ := larger rule member earlier (by simp)
        obtain ⟨large', different⟩ := larger rule member later (by simp)
        exact untouched_of_overlap outer inner.symm some free (clear rule member) different large
          large'
  have reached : opens true (earlier.lead.toList ++ front) = true := by
    rw [opens_append, opens_of_filled _ true given]
    exact free
  have text : earlier.lead.toList ++ front ++ (more ++ back) =
      earlier.replacement.toList ++ back := by
    rw [Rule.replacement, String.toList_append, outer]
    simp
  obtain ⟨found, c, behind, mark, early⟩ := mark_of_occurrence needed fits reached
  rw [text] at mark
  have outside := length_le_of_keeps_handled (graded.filled earlier (by simp)) (keeps _) untouched
    short mark
  have positive := List.length_pos_iff.2 some
  rw [Rule.replacement, String.toList_append, outer, List.length_append, List.length_append]
    at outside
  rw [List.length_append] at early
  omega

end

/-- If all occurrences are spared in every text, each rule leaves alone what those before it make.
-/
theorem leaves_alone_of_keeps_handled {rules : Rules} (graded : rules.Graded)
    (keeps : ∀ text, rules.KeepsHandled text) {before after : Rules} {earlier later : Rule}
    (split : rules = before ++ earlier :: after) (listed : later ∈ after) :
    earlier.LeavesAlone later := by
  induction length : before.length using Nat.strong_induction_on generalizing before earlier after
    later with
  | _ size ih =>
      subst split length
      obtain ⟨between, rest, rfl⟩ := List.append_of_mem listed
      refine ⟨start_of_keeps_handled graded keeps, inside_of_keeps_handled graded keeps ?_⟩
      intro rule member
      obtain ⟨front, back, rfl⟩ := List.append_of_mem member
      have clear : rule.LeavesAlone later :=
        ih front.length (by simp) (List.append_assoc front (rule :: back) _) (by simp) rfl
      exact clear.inside

theorem pairwise_of_split {α : Type} {r : α → α → Prop} {items : List α}
    (ordered : ∀ before item after, items = before ++ item :: after →
      ∀ later ∈ after, r item later) :
    items.Pairwise r := by
  induction items with
  | nil => exact List.Pairwise.nil
  | cons first rest ih =>
      refine List.pairwise_cons.2 ⟨ordered [] first rest rfl, ih ?_⟩
      intro before item after split
      exact ordered (first :: before) item after (congrArg (first :: ·) split)

/-- The rules spare what they handle in every text exactly when each leaves alone what the rules
before it make. -/
theorem keeps_handled_iff {rules : Rules} (graded : rules.Graded) :
    (∀ text, rules.KeepsHandled text) ↔ rules.Orderly :=
  ⟨fun keeps => pairwise_of_split fun _ _ _ split _ listed =>
    leaves_alone_of_keeps_handled graded keeps split listed,
    fun orderly => keeps_handled_of_orderly graded orderly⟩

end Rules

end MessageSchema.Rename
