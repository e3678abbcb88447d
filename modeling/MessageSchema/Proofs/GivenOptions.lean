import MessageSchema.Command.Arguments
import Mathlib.Data.List.Basic

/-!
What has been given on a command line that is accepted. Every option that takes a value has one, which
holds of no options at all and is kept with each argument; so the command that has no default place
for its output is always told one. Behind options that are accepted, help is told when it is asked
for.
-/

namespace MessageSchema.Command

set_option autoImplicit false

section

variable {α β : Type} {first : Parsed α} {last : β}

theorem Parsed.bind_eq_ok {next : α → Parsed β} :
    first >>= next = .ok last ↔ ∃ value, first = .ok value ∧ next value = .ok last := by
  cases first with
  | error stop => exact ⟨nofun, nofun⟩
  | ok value =>
      constructor
      · intro read
        exact ⟨value, rfl, read⟩
      · rintro ⟨_, ⟨⟩, read⟩
        exact read

theorem Parsed.map_eq_ok {f : α → β} :
    first.map f = .ok last ↔ ∃ value, first = .ok value ∧ f value = last := by
  cases first with
  | error stop => exact ⟨nofun, nofun⟩
  | ok value =>
      rw [Except.map, Except.ok.injEq]
      constructor
      · intro same
        exact ⟨value, rfl, same⟩
      · rintro ⟨_, ⟨⟩, same⟩
        exact same

end

/-- Every option that takes a value has one. -/
def Filled (values : Values) : Prop := ∀ entry ∈ values, entry.1.isFlag = false → entry.2 ≠ []

theorem filled_nil : Filled [] := by
  intro entry member
  cases member

theorem split_items_ne_nil (text : String) : splitItems text ≠ [] := by
  rw [splitItems, ne_eq, List.map_eq_nil_iff]
  cases text.toList with
  | nil => exact List.cons_ne_nil _ _
  | cons c rest =>
      rw [List.foldr_cons]
      split
      · exact List.cons_ne_nil _ _
      · split
        · exact List.cons_ne_nil _ _
        · exact List.cons_ne_nil _ _

section

variable {values next : Values} {opt : Opt} (filled : Filled values)

include filled

theorem Filled.add {more : List String} (value : opt.isFlag = false → more ≠ []) :
    Filled (values.add opt more) := by
  intro entry member takes
  unfold Values.add at member
  split at member
  · rcases List.mem_map.1 member with ⟨old, known, rfl⟩
    by_cases here : (old.1 == opt) = true
    · rw [if_pos here] at takes ⊢
      intro empty
      exact value takes (List.append_eq_nil_iff.1 empty).2
    · rw [if_neg here] at takes ⊢
      exact filled old known takes
  · rcases List.mem_append.1 member with known | new
    · exact filled entry known takes
    · rw [List.mem_singleton.1 new] at takes ⊢
      exact value takes

theorem Filled.set_flag (flag : opt.isFlag = true) (set : Command.setFlag opt values = .ok next) :
    Filled next := by
  unfold Command.setFlag at set
  split at set
  · cases set
  · rw [← Except.ok.inj set]
    apply filled.add
    intro takes
    rw [flag] at takes
    cases takes

theorem Filled.set_value {value : String} (set : Command.setValue opt value values = .ok next) :
    Filled next := by
  unfold Command.setValue at set
  split at set
  · rw [← Except.ok.inj set]
    exact filled.add fun _ => split_items_ne_nil value
  · split at set
    · cases set
    · rw [← Except.ok.inj set]
      exact filled.add fun _ => List.cons_ne_nil _ _

end

theorem Filled.read_letters {options : List Opt} {letters : List Char} {values next : Values}
    {pending : Option Opt} (filled : Filled values)
    (read : Command.readLetters options letters values = .ok (next, pending)) : Filled next := by
  induction letters generalizing values with
  | nil =>
      cases read
      exact filled
  | cons letter rest ih =>
      rw [Command.readLetters, Parsed.bind_eq_ok] at read
      rcases read with ⟨opt, -, read⟩
      split at read
      · next flag =>
          rcases Parsed.bind_eq_ok.1 read with ⟨set, taken, read⟩
          exact ih (filled.set_flag flag taken) read
      · split at read
        · cases read
          exact filled
        all_goals
          rcases Parsed.bind_eq_ok.1 read with ⟨set, taken, read⟩
          cases read
          exact filled.set_value taken

theorem Filled.read_option {options : List Opt} {argument : String} {values next : Values}
    {pending : Option Opt} (filled : Filled values)
    (read : Command.readOption options argument values = .ok (next, pending)) : Filled next := by
  unfold Command.readOption at read
  split at read
  · cases read
  · rw [Parsed.bind_eq_ok] at read
    rcases read with ⟨opt, -, read⟩
    split at read
    · cases read
    · next flag _ =>
        rcases Parsed.map_eq_ok.1 read with ⟨set, taken, same⟩
        cases same
        exact filled.set_flag flag taken
    · rcases Parsed.map_eq_ok.1 read with ⟨set, taken, same⟩
      cases same
      exact filled.set_value taken
    · cases read
      exact filled
  · exact filled.read_letters read
  · cases read

theorem Filled.read_options {options : List Opt} {arguments : List String} {pending : Option Opt}
    {values next : Values} (filled : Filled values)
    (read : Command.readOptions options arguments pending values = .ok next) : Filled next := by
  induction arguments generalizing pending values with
  | nil =>
      cases pending with
      | none =>
          cases read
          exact filled
      | some opt => cases read
  | cons argument rest ih =>
      cases pending with
      | some opt =>
          simp only [Command.readOptions] at read
          split at read
          · cases read
          · rcases Parsed.bind_eq_ok.1 read with ⟨set, taken, read⟩
            exact ih (filled.set_value taken) read
      | none =>
          simp only [Command.readOptions] at read
          split at read
          · split at read
            · cases read
              exact filled
            · cases read
          · rcases Parsed.bind_eq_ok.1 read with ⟨⟨set, pending⟩, taken, read⟩
            exact ih (filled.read_option taken) read

theorem Filled.single {values : Values} {opt : Opt} (filled : Filled values)
    (takes : opt.isFlag = false) (given : values.has opt = true) :
    ∃ value, values.single? opt = some value := by
  rcases List.any_eq_true.1 given with ⟨entry, member, same⟩
  cases found : values.find? (·.1 == opt) with
  | none => exact absurd same (List.find?_eq_none.1 found entry member)
  | some first =>
      have named := List.find?_some found
      have here : first.1 = opt := beq_iff_eq.1 named
      have some := filled first (List.mem_of_find?_eq_some found) (by rw [here, takes])
      rcases List.exists_cons_of_ne_nil some with ⟨value, rest, values⟩
      refine ⟨value, ?_⟩
      rw [Values.single?, Values.get?, found, Option.map_some, Option.bind_some, values]
      rfl

theorem output_of_command {verb : Verb} {verbose told : Bool} {arguments : List String}
    {values : Values}
    (read : command? verb verbose arguments = some (.run .handlers told values)) :
    ∃ path, values.single? .output = some path := by
  unfold command? at read
  split at read
  · cases read
  · cases read
  · next given options =>
      split at read
      · cases read
      · next placed =>
          cases read
          apply (filled_nil.read_options options).single rfl
          simpa using placed

theorem asked_of_leading_letters {letters : List Char} {before after : Bool} {request : Request}
    (read : leadingLetters? letters before = some (after, some request)) :
    request = .version ∨ request = .help .program false := by
  fun_induction leadingLetters? letters before with
  | case1 verbose => cases read
  | case2 verbose rest =>
      cases read
      exact .inl rfl
  | case3 verbose rest =>
      cases read
      exact .inr rfl
  | case4 rest => cases read
  | case5 rest verbose first ih => exact ih read
  | case6 => cases read

/-- A command that is carried out is the one that was read behind its verb. -/
theorem command_of_request {arguments : List String} {before verbose : Bool} {verb : Verb}
    {values : Values} (asked : request? arguments before = some (.run verb verbose values)) :
    ∃ told rest, command? verb told rest = some (.run verb verbose values) := by
  fun_induction request? arguments before with
  | case1 | case2 | case3 | case4 | case7 => cases asked
  | case5 argument rest told _ _ _ _ ih => exact ih asked
  | case6 =>
      rcases Option.map_eq_some_iff.1 asked with ⟨page, -, same⟩
      cases same
  | case8 argument rest told _ _ _ _ letter letters _ _ ih =>
      rcases Option.bind_eq_some_iff.1 asked with ⟨⟨more, sooner⟩, read, asked⟩
      cases sooner with
      | none => exact ih more asked
      | some request =>
          rcases asked_of_leading_letters read with same | same
          · rw [same] at asked
            cases asked
          · rw [same] at asked
            cases asked
  | case9 argument rest told =>
      rcases Option.bind_eq_some_iff.1 asked with ⟨found, -, read⟩
      have same : found = verb := by
        unfold command? at read
        split at read
        · cases read
        · cases read
        · split at read
          · cases read
          · cases read
            rfl
      exact ⟨told, rest, same ▸ read⟩

/-- The command line for handlers says where to put them. -/
theorem output_of_request {arguments : List String} {before verbose : Bool} {values : Values}
    (asked : request? arguments before = some (.run .handlers verbose values)) :
    ∃ path, values.single? .output = some path := by
  rcases command_of_request asked with ⟨told, rest, read⟩
  exact output_of_command read

/-- Options that are read to their end leave the next argument to be read as an option. -/
theorem read_options_append {options : List Opt} {front : List String} {pending : Option Opt}
    {values next : Values} (rest : List String) (plain : "--" ∉ front)
    (read : readOptions options front pending values = .ok next) :
    readOptions options (front ++ rest) pending values = readOptions options rest none next := by
  induction front generalizing pending values with
  | nil =>
      cases pending with
      | none =>
          cases read
          rfl
      | some opt => cases read
  | cons argument front ih =>
      rw [List.mem_cons, not_or] at plain
      cases pending with
      | some opt =>
          simp only [readOptions, List.cons_append] at read ⊢
          split at read
          · cases read
          · next value =>
              rcases Parsed.bind_eq_ok.1 read with ⟨set, taken, read⟩
              rw [if_neg value, taken]
              exact ih plain.2 read
      | none =>
          have other : ¬(argument == "--") = true := fun same => plain.1 (beq_iff_eq.1 same).symm
          simp only [readOptions, List.cons_append] at read ⊢
          rw [if_neg other] at read ⊢
          rcases Parsed.bind_eq_ok.1 read with ⟨⟨set, pending⟩, taken, read⟩
          rw [taken]
          exact ih plain.2 read

/-- Help is told wherever it is asked for behind options that are accepted, also when an option that
has to be given is missing. -/
theorem help_of_options {verb : Verb} {front : List String} {values : Values} (long : Bool)
    (rest : List String) (plain : "--" ∉ front)
    (read : readOptions (Opt.ofVerb verb) front none [] = .ok values) :
    request? (verb.name :: (front ++ (if long then "--help" else "-h") :: rest)) false =
      some (.help (.verb verb) long) := by
  have stopped : readOptions (Opt.ofVerb verb) (front ++ (if long then "--help" else "-h") :: rest)
      none [] = .error (.help long) := by
    rw [read_options_append _ plain read]
    cases long <;> rfl
  have command : command? verb false (front ++ (if long then "--help" else "-h") :: rest) =
      some (.help (.verb verb) long) := by
    rw [command?, stopped]
  cases verb <;> exact command

end MessageSchema.Command
