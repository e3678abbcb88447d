import MessageSchema.Command.Run
import MessageSchema.Proofs.JsonTexts
import MessageSchema.Proofs.LineShapes

/-!
What a command reports of a classification. In JSON the answer reads back as it. In words each of the
two lists has a heading and a line for every name; a reader that passes over colours gets back both
lists, provided that no name breaks a line or holds the beginning of a colour.
-/

namespace MessageSchema.Command

set_option autoImplicit false

open Text

/-! ### Reading words -/

/-- A text without its colours, each of which reaches from an escape to the next `m`. -/
def unpaintedFrom (inside : Bool) : List Char → List Char
  | [] => []
  | c :: rest =>
      if inside then unpaintedFrom (c != 'm') rest
      else if c = '\x1b' then unpaintedFrom true rest
      else c :: unpaintedFrom false rest

def unpainted (text : String) : String := String.ofList (unpaintedFrom false text.toList)

/-- The names of a listing: of the lines behind its heading those up to the first without a bullet. -/
def listedUnder (heading printed : String) : List String :=
  let behind := ((textLines (unpainted printed)).dropWhile (· != heading)).tail
  (behind.takeWhile (starts "  • ")).map fun line => String.ofList (line.toList.drop 4)

/-- A name that takes up a line of its own and leaves colours alone. -/
def Listable (name : String) : Prop := '\n' ∉ name.toList ∧ '\x1b' ∉ name.toList

instance (name : String) : Decidable (Listable name) := inferInstanceAs (Decidable (_ ∧ _))

/-- Whatever follows it, the first text is read as the second one. -/
def Reads (printed plain : String) : Prop :=
  ∀ rest, unpaintedFrom false (printed.toList ++ rest) =
    plain.toList ++ unpaintedFrom false rest

namespace Reads

theorem of_plain (text : String) (plain : '\x1b' ∉ text.toList) : Reads text text := by
  intro rest
  generalize text.toList = chars at plain
  induction chars with
  | nil => rfl
  | cons c more ih =>
      rw [List.mem_cons, not_or] at plain
      rw [List.cons_append, unpaintedFrom, if_neg (by decide), if_neg (Ne.symm plain.1), ih plain.2]
      rfl

theorem append {first second plain plain' : String} (reads : Reads first plain)
    (reads' : Reads second plain') : Reads (first ++ second) (plain ++ plain') := by
  intro rest
  rw [String.toList_append, String.toList_append, List.append_assoc, reads, reads',
    List.append_assoc]

theorem join {α : Type} {items : List α} {printed plain : α → String}
    (each : ∀ item ∈ items, Reads (printed item) (plain item)) :
    Reads (String.join (items.map printed)) (String.join (items.map plain)) := by
  induction items with
  | nil => exact fun rest => rfl
  | cons item rest ih =>
      rw [List.map_cons, List.map_cons, String.join_cons, String.join_cons]
      apply (each item List.mem_cons_self).append
      exact ih fun other member => each other (List.mem_cons_of_mem _ member)

theorem unpainted {printed plain : String} (reads : Reads printed plain) :
    Command.unpainted printed = plain := by
  have whole := reads []
  rw [List.append_nil, unpaintedFrom, List.append_nil] at whole
  rw [Command.unpainted, whole, String.ofList_toList]

end Reads

/-- Inside a text that holds no escape no paint is begun again. -/
theorem renew_of_plain (paint : Paint) {chars : List Char} (plain : '\x1b' ∉ chars) :
    paint.renew chars = chars := by
  induction chars with
  | nil => rfl
  | cons c rest ih =>
      rw [List.mem_cons, not_or] at plain
      rw [Paint.renew, ih plain.2]
      split
      · next same =>
          have first := congrArg List.head? same
          exact absurd (Option.some.inj first).symm plain.1
      · rfl

theorem reads_apply (colored : Bool) (paint : Paint) (text : String) (plain : '\x1b' ∉ text.toList) :
    Reads (paint.apply colored text) text := by
  cases colored with
  | false => exact Reads.of_plain _ plain
  | true =>
      have begun : Reads (String.ofList paint.opening) "" := by
        intro rest
        cases paint <;> rfl
      have ended : Reads (String.ofList Paint.closing) "" := fun rest => rfl
      have whole := (begun.append (Reads.of_plain _ plain)).append ended
      rw [String.empty_append, String.append_empty] at whole
      rw [Paint.apply, if_pos rfl, renew_of_plain paint plain, String.ofList_append,
        String.ofList_append, String.ofList_toList]
      exact whole

/-! ### Lines -/

/-- What is printed reads as these lines. -/
def Prints (printed : String) (lines : List String) : Prop :=
  Reads printed (String.join (lines.map (· ++ "\n")))

namespace Prints

theorem nil : Prints "" [] := fun _ => rfl

theorem line {printed plain : String} (reads : Reads printed plain) :
    Prints (printed ++ "\n") [plain] := by
  have whole := reads.append (Reads.of_plain "\n" (by decide))
  rw [Prints, List.map_singleton, String.join_cons]
  simpa using whole

theorem append {first second : String} {lines lines' : List String} (prints : Prints first lines)
    (prints' : Prints second lines') : Prints (first ++ second) (lines ++ lines') := by
  have whole := Reads.append prints prints'
  rwa [← String.join_append, ← List.map_append] at whole

theorem join {items : List String} {printed plain : String → String}
    (each : ∀ item ∈ items, Reads (printed item) (plain item)) :
    Prints (String.join (items.map fun item => printed item ++ "\n")) (items.map plain) := by
  rw [Prints, List.map_map]
  apply Reads.join
  intro item member
  exact (each item member).append (Reads.of_plain _ (by decide))

theorem listed_under {printed heading : String} {lines before names after : List String}
    (prints : Prints printed lines) (unbroken : ∀ line ∈ lines, Unbroken line)
    (parts : lines = before ++ heading :: (names.map ("  • " ++ ·) ++ after))
    (fresh : heading ∉ before) (ends : ∀ line ∈ after.head?, starts "  • " line = false) :
    Command.listedUnder heading printed = names := by
  have shown : textLines (unpainted printed) = lines := by
    rw [Reads.unpainted prints]
    exact text_lines_join unbroken
  have passed : ∀ line ∈ before, (line != heading) = true := by
    intro line member
    rw [bne_iff_ne]
    rintro rfl
    exact fresh member
  have bulleted : ∀ line ∈ names.map ("  • " ++ ·), starts "  • " line = true := by
    intro line member
    rcases List.mem_map.1 member with ⟨name, -, rfl⟩
    rw [starts, List.isPrefixOf_iff_prefix, String.toList_append]
    exact List.prefix_append _ _
  have behind : after.takeWhile (starts "  • ") = [] := by
    cases after with
    | nil => rfl
    | cons line rest => exact List.takeWhile_cons_of_neg (by simp [ends line rfl])
  have bare : ∀ name : String, String.ofList (("  • " ++ name).toList.drop 4) = name := by
    intro name
    rw [String.toList_append]
    exact String.ofList_toList
  rw [Command.listedUnder, shown, parts, List.dropWhile_append_of_pos passed,
    List.dropWhile_cons_of_neg (by simp), List.tail_cons, List.takeWhile_append_of_pos bulleted,
    behind, List.append_nil, List.map_map]
  simp only [Function.comp_def, bare, List.map_id']

end Prints

/-! ### Reports -/

theorem is_digit_of_mem_to_string {n : Nat} {c : Char} (member : c ∈ (toString n).toList) :
    c.isDigit = true := by
  have digit : c ∈ Nat.toDigits 10 n := by simpa [Nat.toString_eq_repr, Nat.repr] using member
  exact Nat.isDigit_of_mem_toDigits (by decide) (by decide) digit

theorem plain_warning_count {count : Nat} {line : String} (shown : warningCount? count = some line) :
    Listable line ∧ line.toList.head? = some '⚠' := by
  unfold warningCount? at shown
  split at shown
  · cases shown
  · cases shown
    exact ⟨⟨by decide, by decide⟩, by decide⟩
  · next _ _ =>
      cases shown
      have free : ∀ c : Char, c.isDigit = false → c ∉ "⚠ ".toList →
          c ∉ " warnings (see log)".toList →
          c ∉ ("⚠ " ++ toString count ++ " warnings (see log)").toList := by
        intro c other front back inside
        simp only [String.toList_append, List.mem_append] at inside
        rcases inside with (first | number) | last
        · exact front first
        · rw [is_digit_of_mem_to_string number] at other
          cases other
        · exact back last
      constructor
      · exact ⟨free '\n' (by decide) (by decide) (by decide),
          free '\x1b' (by decide) (by decide) (by decide)⟩
      · rw [String.toList_append, String.toList_append]
        rfl

variable (colored : Bool)

theorem prints_verbose_line (verbose : Bool) :
    Prints (verboseLine colored verbose) (if verbose then ["→ Verbose mode enabled"] else []) := by
  cases verbose with
  | false => exact Prints.nil
  | true =>
      have said : Reads " Verbose mode enabled" " Verbose mode enabled" := Reads.of_plain _ (by decide)
      have whole := Prints.line ((reads_apply colored .cyan "→" (by decide)).append said)
      rwa [String.append_assoc] at whole

theorem prints_warning_line (count : Nat) :
    Prints (warningLine colored "" count) (warningCount? count).toList := by
  unfold warningLine
  cases shown : warningCount? count with
  | none => exact Prints.nil
  | some line =>
      exact Prints.line ((Reads.of_plain "" (by decide)).append
        (reads_apply colored .yellow line (plain_warning_count shown).1.2))

theorem prints_heading (heading : String) (plain : '\x1b' ∉ heading.toList) :
    Prints ("\n" ++ Paint.bold.apply colored heading ++ "\n") ["", heading] := by
  have blank : Prints "\n" [""] := fun _ => rfl
  rw [String.append_assoc]
  exact blank.append (Prints.line (reads_apply colored .bold heading plain))

theorem prints_bullets (paint : Paint) {names : List String}
    (plain : ∀ name ∈ names, '\x1b' ∉ name.toList) :
    Prints (bullets colored paint names) (names.map ("  • " ++ ·)) := by
  unfold bullets
  have each : ∀ name ∈ names, Reads ("  • " ++ paint.apply colored name) ("  • " ++ name) := by
    intro name member
    exact (Reads.of_plain _ (by decide)).append (reads_apply colored paint name (plain name member))
  exact Prints.join each

def preamble (verbose : Bool) (count : Nat) : List String :=
  (if verbose then ["→ Verbose mode enabled"] else []) ++ (warningCount? count).toList

theorem mem_preamble {verbose : Bool} {count : Nat} {line : String}
    (member : line ∈ preamble verbose count) :
    Unbroken line ∧ (line.toList.head? = some '→' ∨ line.toList.head? = some '⚠') := by
  rcases List.mem_append.1 member with announced | warned
  · split at announced
    · rw [List.mem_singleton.1 announced]
      exact ⟨by decide, Or.inl (by decide)⟩
    · cases announced
  · have plain := plain_warning_count (Option.mem_toList.1 warned)
    exact ⟨plain.1.1, Or.inr plain.2⟩

theorem prints_listings (verbose : Bool) {output : Output}
    (listable : ∀ name ∈ output.classification.publish ++ output.classification.subscribe,
      Listable name) :
    Prints (verboseLine colored verbose ++ classificationText colored output)
      (preamble verbose output.warnings.length ++ ["", "Publish (client → server):"] ++
        output.classification.publish.map ("  • " ++ ·) ++ ["", "Subscribe (server → client):"] ++
        output.classification.subscribe.map ("  • " ++ ·)) := by
  have publish := prints_bullets colored .cyan fun name member =>
    (listable name (List.mem_append_left _ member)).2
  have subscribe := prints_bullets colored .yellow fun name member =>
    (listable name (List.mem_append_right _ member)).2
  have opening := (prints_verbose_line colored verbose).append
    (prints_warning_line colored output.warnings.length)
  have whole := (((opening.append
    (prints_heading colored "Publish (client → server):" (by decide))).append
    publish).append
    (prints_heading colored "Subscribe (server → client):" (by decide))).append subscribe
  unfold classificationText
  simp only [String.append_assoc] at whole ⊢
  exact whole

theorem unbroken_bullets {names : List String} (listable : ∀ name ∈ names, Listable name) :
    ∀ line ∈ names.map ("  • " ++ ·), Unbroken line := by
  intro line member
  rcases List.mem_map.1 member with ⟨name, inside, rfl⟩
  exact Unbroken.append (by decide) (listable name inside).1

/-- Both lists of a classification are read back from a report in words. -/
theorem listed_under_of_report (verbose : Bool) {output : Output}
    (listable : ∀ name ∈ output.classification.publish ++ output.classification.subscribe,
      Listable name) :
    let printed := verboseLine colored verbose ++ classificationText colored output
    listedUnder "Publish (client → server):" printed = output.classification.publish ∧
      listedUnder "Subscribe (server → client):" printed = output.classification.subscribe := by
  intro printed
  have prints := prints_listings colored verbose listable
  rcases List.forall_mem_append.1 listable with ⟨publish, subscribe⟩
  have opening : ∀ line ∈ preamble verbose output.warnings.length, Unbroken line :=
    fun line member => (mem_preamble member).1
  have first : ∀ line ∈ ["", "Publish (client → server):"], Unbroken line := by decide
  have second : ∀ line ∈ ["", "Subscribe (server → client):"], Unbroken line := by decide
  have unbroken := List.forall_mem_append.2 ⟨List.forall_mem_append.2 ⟨List.forall_mem_append.2
    ⟨List.forall_mem_append.2 ⟨opening, first⟩, unbroken_bullets publish⟩, second⟩,
    unbroken_bullets subscribe⟩
  -- Neither a line before the listings nor a bullet begins like a heading.
  have foreign : ∀ heading : String, heading.toList.head? ≠ some '→' →
      heading.toList.head? ≠ some '⚠' → heading ∉ preamble verbose output.warnings.length := by
    intro heading arrow sign member
    rcases (mem_preamble member).2 with begins | begins
    · exact arrow begins
    · exact sign begins
  have unlisted : "Subscribe (server → client):" ∉
      output.classification.publish.map ("  • " ++ ·) := by
    intro member
    rcases List.mem_map.1 member with ⟨name, -, same⟩
    have begins : some ' ' = some 'S' := by
      simpa [String.toList_append] using congrArg (fun line => line.toList.head?) same
    cases begins
  let front := preamble verbose output.warnings.length
  let published := output.classification.publish.map ("  • " ++ ·)
  let subscribed := output.classification.subscribe.map ("  • " ++ ·)
  constructor
  · have parts : front ++ ["", "Publish (client → server):"] ++ published ++
        ["", "Subscribe (server → client):"] ++ subscribed =
        (front ++ [""]) ++ "Publish (client → server):" ::
          (published ++ (["", "Subscribe (server → client):"] ++ subscribed)) := by
      simp only [List.append_assoc, List.cons_append, List.nil_append]
    apply prints.listed_under unbroken parts
    · rw [List.mem_append, not_or]
      exact ⟨foreign _ (by decide) (by decide), by decide⟩
    · rintro line ⟨⟩
      decide
  · have parts : front ++ ["", "Publish (client → server):"] ++ published ++
        ["", "Subscribe (server → client):"] ++ subscribed =
        (front ++ ["", "Publish (client → server):"] ++ published ++ [""]) ++
          "Subscribe (server → client):" :: (subscribed ++ []) := by
      simp only [List.append_assoc, List.cons_append, List.nil_append, List.append_nil]
    apply prints.listed_under unbroken parts
    · simp only [List.mem_append, not_or]
      exact ⟨⟨⟨foreign _ (by decide) (by decide), by decide⟩, unlisted⟩, by decide⟩
    · decide

/-- What is printed reports a classification: in JSON the answer reads back as it, and in words both
lists are laid out under their headings and read back from there. -/
structure Reports (verbose json : Bool) (output : Output) (stdout : String) : Prop where
  answer : json = true → ∃ answer, stdout = verboseLine colored verbose ++ answer ∧
    Json.classification? answer = some output.classification
  layout : json = false →
    let strong (text : String) := if colored then "\x1b[1m" ++ text ++ "\x1b[0m" else text
    let bullet (paint : Paint) (name : String) := "  • " ++ paint.apply colored name ++ "\n"
    stdout = verboseLine colored verbose ++ warningLine colored "" output.warnings.length ++
      "\n" ++ strong "Publish (client → server):" ++ "\n" ++
      String.join (output.classification.publish.map (bullet .cyan)) ++
      "\n" ++ strong "Subscribe (server → client):" ++ "\n" ++
      String.join (output.classification.subscribe.map (bullet .yellow))
  listings : json = false →
    (∀ name ∈ output.classification.publish ++ output.classification.subscribe, Listable name) →
      listedUnder "Publish (client → server):" stdout = output.classification.publish ∧
        listedUnder "Subscribe (server → client):" stdout = output.classification.subscribe

theorem reports_classification (verbose json : Bool) (output : Output) :
    Reports colored verbose json output (verboseLine colored verbose ++
      if json then Json.classification output.classification ++ "\n"
      else classificationText colored output) := by
  constructor
  · rintro rfl
    exact ⟨_, rfl, Json.classification_classification output.classification⟩
  · rintro rfl strong bullet
    have bold : ∀ text, '\x1b' ∉ text.toList → Paint.bold.apply colored text = strong text := by
      intro text plain
      cases colored with
      | false => rfl
      | true =>
          simp only [Paint.apply, renew_of_plain .bold plain, strong, if_true, String.ofList_append,
            String.ofList_toList]
          rfl
    rw [if_neg (by decide), classificationText, bold _ (by decide), bold _ (by decide)]
    simp only [String.append_assoc]
    rfl
  · rintro rfl listable
    exact listed_under_of_report colored verbose listable

end MessageSchema.Command
