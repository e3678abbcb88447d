import MessageSchema.Command.Run
import MessageSchema.Proofs.Identifiers
import MessageSchema.Proofs.OutputSchemas
import MessageSchema.Proofs.RenameRules

/-!
The settings of a command. An option that is given decides its field, and the file decides the fields
that no option is given for. The outcome is checked, but so is the file by itself when it is loaded:
an option cannot make up for a file that makes no sense on its own. The two checks can only differ
where an option changes the lead or the targets.
-/

namespace MessageSchema

set_option autoImplicit false

open Files Yaml

namespace Settings

def readText? (text : String) : Option Settings :=
  (Document.ofText? text.toList).bind ofDocument?

/-- Settings that make sense together. -/
structure Valid (s : Settings) : Prop where
  lead : s.targets ≠ [] → s.lead ≠ ""
  chars : ∀ c ∈ s.lead.toList, Text.IsAsciiLetter c ∨ Text.IsAsciiDigit c ∨ c = '_'
  targets : ∀ target ∈ s.targets, target ≠ ""

theorem valid_iff (s : Settings) : s.Valid ↔ s.fault? = none := by
  constructor
  · intro valid
    have lead : (s.lead.isEmpty && !s.targets.isEmpty) = false := by
      rw [Bool.and_eq_false_imp, Bool.not_eq_false']
      intro blank
      rw [List.isEmpty_iff]
      by_contra some
      exact valid.lead some (String.isEmpty_iff.1 blank)
    have chars : s.lead.toList.find? (fun c => !Text.isIdentChar c) = none := by
      rw [List.find?_eq_none]
      intro c member other
      rw [(Text.is_ident_char_iff c).2 (valid.chars c member)] at other
      cases other
    have targets : s.targets.any String.isEmpty = false := by
      rw [List.any_eq_false]
      intro target member blank
      exact valid.targets target member (String.isEmpty_iff.1 blank)
    rw [fault?, lead, chars, targets]
    rfl
  · intro sound
    have checked := checked_of_validated ((validated_eq_ok_iff s s).2 ⟨sound, rfl⟩)
    constructor
    · intro some
      exact checked.2.1.resolve_left some
    · intro c member
      exact (Text.is_ident_char_iff c).1 (checked.1 c member)
    · exact checked.2.2

theorem validated_of_valid {s : Settings} (valid : s.Valid) : s.validated = .ok s :=
  (validated_eq_ok_iff s s).2 ⟨s.valid_iff.1 valid, rfl⟩

theorem validated_of_not_valid {s : Settings} (invalid : ¬s.Valid) :
    ∃ fault, s.fault? = some fault ∧ s.validated = .error fault := by
  rw [valid_iff, ← ne_eq, Option.ne_none_iff_exists'] at invalid
  rcases invalid with ⟨fault, found⟩
  exact ⟨fault, found, by rw [validated, found]⟩

theorem of_text_of_read_text {text : String} {s : Settings} (parsed : readText? text = some s) :
    ofText text = s.validated := by
  unfold readText? at parsed
  rw [ofText, parsed]

end Settings

namespace Command

/-! ### What the options decide -/

/-- A field is what its option says, or its own value if the option is not given. -/
def Picks {α : Type} (option : Option α) (own chosen : α) : Prop :=
  (∀ value, option = some value → chosen = value) ∧ (option = none → chosen = own)

theorem picks_iff {α : Type} {option : Option α} {own chosen : α} :
    Picks option own chosen ↔ chosen = option.getD own := by
  cases option with
  | none =>
      constructor
      · intro picks
        exact picks.2 rfl
      · intro same
        exact ⟨nofun, fun _ => same⟩
  | some value =>
      constructor
      · intro picks
        exact picks.1 value rfl
      · intro same
        exact ⟨fun other given => same.trans (Option.some.inj given), nofun⟩

def modeOf? (values : Values) : Option Rename.Mode :=
  (values.single? .renameMode).bind Rename.Mode.ofName?

/-- Settings with the fields that options are given for replaced. -/
structure Overridden (values : Values) (base merged : Settings) : Prop where
  input : Picks (values.single? .input) base.inputPath merged.inputPath
  publish : Picks (values.get? .publish) base.publish merged.publish
  targets : Picks (values.get? .rename) base.targets merged.targets
  lead : Picks (values.single? .lead) base.lead merged.lead
  mode : Picks (modeOf? values) base.mode merged.mode
  template : merged.templatePath = base.templatePath
  output : merged.outputPath = base.outputPath
  clientMessages : merged.clientMessages = base.clientMessages

theorem overridden_iff {values : Values} {base merged : Settings} :
    Overridden values base merged ↔ merged = override values base := by
  constructor
  · intro overridden
    rcases merged with ⟨inputPath, templatePath, outputPath, publish, targets, lead, mode, source⟩
    rw [override, Settings.mk.injEq]
    exact ⟨picks_iff.1 overridden.input, overridden.template, overridden.output,
      picks_iff.1 overridden.publish, picks_iff.1 overridden.targets, picks_iff.1 overridden.lead,
      picks_iff.1 overridden.mode, overridden.clientMessages⟩
  · rintro rfl
    exact ⟨picks_iff.2 rfl, picks_iff.2 rfl, picks_iff.2 rfl, picks_iff.2 rfl, picks_iff.2 rfl,
      rfl, rfl, rfl⟩

/-- Without an option for the lead or the targets the check has the same outcome. -/
theorem Overridden.valid_iff {values : Values} {base merged : Settings}
    (overridden : Overridden values base merged) (lead : values.single? .lead = none)
    (targets : values.get? .rename = none) : merged.Valid ↔ base.Valid := by
  have sameLead := overridden.lead.2 lead
  have sameTargets := overridden.targets.2 targets
  constructor
  · intro valid
    rcases valid with ⟨filled, chars, named⟩
    rw [sameLead, sameTargets] at filled
    rw [sameLead] at chars
    rw [sameTargets] at named
    exact ⟨filled, chars, named⟩
  · intro valid
    constructor
    · rw [sameLead, sameTargets]
      exact valid.lead
    · rw [sameLead]
      exact valid.chars
    · rw [sameTargets]
      exact valid.targets

/-! ### Resolving -/

def checked (values : Values) (base : Settings) : Except Trouble Settings :=
  match (override values base).validated with
  | .ok s => .ok s
  | .error fault => .error (.ofFailure "Invalid configuration" (.settings fault))

theorem run_resolve (values : Values) (d : Disk) :
    (resolve values).run d =
      (((baseSettings values).run d).1,
        match ((baseSettings values).run d).2 with
        | .error trouble => .error trouble
        | .ok base => checked values base) := by
  rw [resolve, Plan.run_bind]
  cases ((baseSettings values).run d).2 with
  | error trouble => rfl
  | ok base =>
      simp only [checked]
      cases (override values base).validated <;> rfl

theorem run_base_settings {values : Values} {d : Disk} {path text : String} {base : Settings}
    (given : values.single? .config = some path) (readable : d.read ⟨path⟩ = .ok text)
    (parsed : Settings.readText? text = some base) :
    (baseSettings values).run d =
      (d, match base.validated with
        | .ok s => .ok s
        | .error fault =>
            .error (.ofFailure ("Failed to load config " ++ path) (.settingsIn path fault))) := by
  rw [baseSettings, given, Plan.run_bind]
  simp only [Job.loadSettings, Plan.run, readable, Settings.of_text_of_read_text parsed]
  cases base.validated <;> rfl

theorem checked_of_valid {values : Values} {base : Settings} (valid : (override values base).Valid) :
    checked values base = .ok (override values base) := by
  rw [checked, Settings.validated_of_valid valid]

theorem checked_of_not_valid {values : Values} {base : Settings}
    (invalid : ¬(override values base).Valid) :
    ∃ fault, (override values base).fault? = some fault ∧
      checked values base = .error (.ofFailure "Invalid configuration" (.settings fault)) := by
  rcases Settings.validated_of_not_valid invalid with ⟨fault, found, refused⟩
  exact ⟨fault, found, by rw [checked, refused]⟩

/-- How the settings of a command come out that are read from a file: the file by itself has to make
sense, and so have the settings that the options leave. If both do, these are the settings of the
command; otherwise the first that does not is told. The disk is as it was. -/
theorem resolve_file {values : Values} {d : Disk} {path text : String} {base : Settings}
    (given : values.single? .config = some path) (readable : d.read ⟨path⟩ = .ok text)
    (parsed : Settings.readText? text = some base) :
    ∃ merged, Overridden values base merged ∧
      (∀ other, Overridden values base other → other = merged) ∧
      (∀ s, (resolve values).run d = (d, .ok s) ↔ (base.Valid ∧ merged.Valid) ∧ s = merged) ∧
      (¬base.Valid → ∃ fault, base.fault? = some fault ∧ (resolve values).run d =
        (d, .error (.ofFailure ("Failed to load config " ++ path) (.settingsIn path fault)))) ∧
      (base.Valid → ¬merged.Valid → ∃ fault, merged.fault? = some fault ∧ (resolve values).run d =
        (d, .error (.ofFailure "Invalid configuration" (.settings fault)))) ∧
      (values.single? .lead = none → values.get? .rename = none → (merged.Valid ↔ base.Valid)) := by
  have overridden : Overridden values base (override values base) := overridden_iff.2 rfl
  have loaded := run_base_settings given readable parsed
  have failed : ¬base.Valid → ∃ fault, base.fault? = some fault ∧ (resolve values).run d =
      (d, .error (.ofFailure ("Failed to load config " ++ path) (.settingsIn path fault))) := by
    intro invalid
    rcases Settings.validated_of_not_valid invalid with ⟨fault, found, refused⟩
    refine ⟨fault, found, ?_⟩
    rw [run_resolve, loaded, refused]
  have passed : base.Valid → (resolve values).run d = (d, checked values base) := by
    intro valid
    rw [run_resolve, loaded, Settings.validated_of_valid valid]
  have stopped : base.Valid → ¬(override values base).Valid →
      ∃ fault, (override values base).fault? = some fault ∧ (resolve values).run d =
        (d, .error (.ofFailure "Invalid configuration" (.settings fault))) := by
    intro valid invalid
    rcases checked_of_not_valid invalid with ⟨fault, found, refused⟩
    exact ⟨fault, found, by rw [passed valid, refused]⟩
  refine ⟨override values base, overridden, fun other => overridden_iff.1, ?_, failed, stopped,
    overridden.valid_iff⟩
  intro s
  constructor
  · intro resolved
    by_cases valid : base.Valid
    · by_cases sound : (override values base).Valid
      · rw [passed valid, checked_of_valid sound] at resolved
        exact ⟨⟨valid, sound⟩, (Except.ok.inj (Prod.mk.inj resolved).2).symm⟩
      · rcases stopped valid sound with ⟨fault, -, refused⟩
        rw [refused] at resolved
        cases resolved
    · rcases failed valid with ⟨fault, -, refused⟩
      rw [refused] at resolved
      cases resolved
  · rintro ⟨⟨valid, sound⟩, rfl⟩
    rw [passed valid, checked_of_valid sound]

/-- A file that renames nothing, with options that do. -/
theorem resolve_file_renaming :
    let values : Values := [(.config, ["c"]), (.rename, ["A", "B"]), (.lead, ["RT"]),
      (.renameMode, ["text"])]
    let d : Disk := ⟨[(["c"], .file (.text "rename_targets: []\nrename_prefix: ''\n"))], []⟩
    (resolve values).run d = (d, .ok { targets := ["A", "B"], lead := "RT", mode := .text }) := by
  intro values d
  have readable : d.read ⟨"c"⟩ = .ok "rename_targets: []\nrename_prefix: ''\n" :=
    ok_of_to_option (by decide +kernel)
  have parsed : Settings.readText? "rename_targets: []\nrename_prefix: ''\n" =
      some { targets := [], lead := "" } := by decide +kernel
  have given : values.single? .config = some "c" := rfl
  rcases resolve_file given readable parsed with ⟨merged, overridden, -, resolved, -⟩
  obtain rfl := overridden_iff.1 overridden
  apply (resolved _).2
  exact ⟨⟨(Settings.valid_iff _).2 (by decide +kernel), (Settings.valid_iff _).2 (by decide +kernel)⟩,
    by decide +kernel⟩

/-- A file that makes no sense by itself is refused, although with the option it would. -/
theorem resolve_refused :
    let values : Values := [(.config, ["c"]), (.lead, ["RT"])]
    let d : Disk := ⟨[(["c"], .file (.text "rename_prefix: ''\n"))], []⟩
    values.single? .config = some "c" ∧ d.read ⟨"c"⟩ = .ok "rename_prefix: ''\n" ∧
      Settings.readText? "rename_prefix: ''\n" = some { lead := "" } ∧
      Overridden values { lead := "" } { lead := "RT" } ∧ Settings.Valid { lead := "RT" } ∧
      ((resolve values).run d).2 = .error (.ofFailure "Failed to load config c"
        (.settingsIn "c" .missingLead)) := by
  intro values d
  have readable : d.read ⟨"c"⟩ = .ok "rename_prefix: ''\n" := ok_of_to_option (by decide +kernel)
  have parsed : Settings.readText? "rename_prefix: ''\n" = some { lead := "" } := by
    decide +kernel
  have valid : Settings.Valid { lead := "RT" } := (Settings.valid_iff _).2 (by decide +kernel)
  refine ⟨rfl, readable, parsed, overridden_iff.2 rfl, valid, ?_⟩
  rw [run_resolve, run_base_settings rfl readable parsed]
  rfl

end Command

end MessageSchema
