import MessageSchema.Files.Disk
import MessageSchema.Proofs.Paths
import Mathlib.Data.List.Basic

/-!
What operations do to a disk. Directories that are made add to it and take nothing away; a text that
is written changes one file. Neither moves a path that led somewhere before.
-/

namespace MessageSchema.Files.Disk

set_option autoImplicit false

theorem find_put (d : Disk) {place : Location} (named : place ≠ []) (entry : Entry)
    (other : Location) :
    (d.put place entry).find? other = if place = other then some entry else d.find? other := by
  by_cases root : other = []
  · subst root
    simp [find?, named]
  · have blank : other.isEmpty = false := by simpa using root
    simp only [find?, blank, Bool.false_eq_true, if_false, put]
    split
    · next there =>
        have same : ((fun old : Location × Entry => old.1 == other) ∘
            fun old => if old.1 == place then (place, entry) else old) = (·.1 == other) := by
          funext old
          by_cases here : old.1 = place <;> simp [here]
        rw [List.find?_map, same, Option.map_map]
        cases found : d.entries.find? (·.1 == other) with
        | none =>
            rw [List.find?_eq_none] at found
            obtain ⟨old, member, hit⟩ := List.any_eq_true.1 there
            have apart : place ≠ other := by
              rintro rfl
              exact found old member hit
            simp [apart]
        | some first =>
            have hit : first.1 = other := by simpa using List.find?_some found
            by_cases here : place = other
            · simp [hit, here]
            · simp [hit, here, Ne.symm here]
    · next absent =>
        by_cases here : place = other
        · subst here
          have none : d.entries.find? (·.1 == place) = none := by
            rw [List.find?_eq_none]
            exact fun old member hit => absent (List.any_eq_true.2 ⟨old, member, hit⟩)
          simp [List.find?_append, none]
        · simp [List.find?_append, here]

theorem enter_eq_ok_iff (d : Disk) (place target : Location) (step : String) :
    d.enter place step = .ok target ↔
      (step = "." ∧ place = target) ∨ (step = ".." ∧ place.dropLast = target) ∨
        (step ≠ "." ∧ step ≠ ".." ∧ step.utf8ByteSize ≤ nameLimit ∧
          d.find? (place ++ [step]) = some .directory ∧ place ++ [step] = target) := by
  unfold enter lookup
  by_cases here : step = "."
  · subst here
    simp
  · by_cases up : step = ".."
    · subst up
      simp
    · simp only [here, up, beq_iff_eq, if_false, false_and, false_or, ne_eq, not_false_eq_true,
        true_and]
      by_cases long : nameLimit < step.utf8ByteSize
      · simp [long, Nat.not_le.2 long]
      · simp only [long, if_false, Nat.not_lt.1 long, true_and]
        cases d.find? (place ++ [step]) with
        | none => simp
        | some entry => cases entry <;> simp

theorem walk_append (d : Disk) {place middle : Location} {front : List String}
    (walked : d.walk place front = .ok middle) (back : List String) :
    d.walk place (front ++ back) = d.walk middle back := by
  rw [walk] at walked
  rw [walk, List.foldlM_append, walked]
  rfl

theorem walk_singleton (d : Disk) (place : Location) (step : String) :
    d.walk place [step] = d.enter place step := by
  simp [walk]

theorem walk_initial (d : Disk) {place target : Location} {front whole : List String}
    (part : front <+: whole) (walked : d.walk place whole = .ok target) :
    ∃ middle, d.walk place front = .ok middle := by
  obtain ⟨back, rfl⟩ := part
  rw [walk, List.foldlM_append] at walked
  cases start : d.walk place front with
  | ok middle => exact ⟨middle, rfl⟩
  | error fault =>
      rw [walk] at start
      rw [start] at walked
      contradiction

theorem goal_eq_name_iff (d : Disk) (path : Path) (place : Location) (name : String) :
    d.goal path = .ok (.name place name) ↔
      path.fault? = none ∧ path.steps.getLast? = some name ∧ name ≠ "." ∧ name ≠ ".." ∧
        d.walk (d.origin path) path.steps.dropLast = .ok place := by
  unfold goal
  cases path.fault? with
  | some fault => simp
  | none =>
      cases last : path.steps.getLast? with
      | none => by_cases absolute : path.absolute = true <;> simp [absolute]
      | some step =>
          cases d.walk (d.origin path) path.steps.dropLast with
          | error fault => simp
          | ok front =>
              by_cases point : step = "." ∨ step = ".."
              · have given : (step == "." || step == "..") = true := by simpa using point
                simp only [given, if_true]
                constructor
                · intro same
                  simp at same
                · rintro ⟨_, same, notHere, notUp, _⟩
                  rw [Option.some.inj same] at point
                  exact (point.elim notHere notUp).elim
              · have given : ¬(step == "." || step == "..") = true := by simpa using point
                simp only [if_neg given]
                rw [not_or] at point
                constructor
                · intro same
                  obtain ⟨rfl, rfl⟩ := Goal.name.inj (Except.ok.inj same)
                  exact ⟨trivial, rfl, point.1, point.2, rfl⟩
                · rintro ⟨_, same, _, _, walked⟩
                  rw [Option.some.inj same, Except.ok.inj walked]

structure KeepsDirectories (before after : Disk) : Prop where
  home : after.home = before.home
  directory : ∀ place, before.find? place = some .directory → after.find? place = some .directory

section

variable {before after : Disk} (keeps : before.KeepsDirectories after)

include keeps

theorem KeepsDirectories.enter {place target : Location} {step : String}
    (entered : before.enter place step = .ok target) : after.enter place step = .ok target := by
  rw [enter_eq_ok_iff] at entered ⊢
  rcases entered with here | up | ⟨notHere, notUp, short, there, same⟩
  · exact Or.inl here
  · exact Or.inr (Or.inl up)
  · exact Or.inr (Or.inr ⟨notHere, notUp, short, keeps.directory _ there, same⟩)

theorem KeepsDirectories.walk {place target : Location} {steps : List String}
    (walked : before.walk place steps = .ok target) : after.walk place steps = .ok target := by
  induction steps generalizing place with
  | nil => exact walked
  | cons step rest ih =>
      simp only [Disk.walk, List.foldlM_cons] at walked ih ⊢
      cases entered : before.enter place step with
      | error fault => simp [entered, bind, Except.bind] at walked
      | ok next =>
          rw [keeps.enter entered]
          rw [entered] at walked
          exact ih walked

theorem KeepsDirectories.origin (path : Path) : after.origin path = before.origin path := by
  unfold Disk.origin
  rw [keeps.home]

theorem KeepsDirectories.goal {path : Path} {place : Location} {name : String}
    (found : before.goal path = .ok (.name place name)) :
    after.goal path = .ok (.name place name) := by
  rw [goal_eq_name_iff] at found ⊢
  obtain ⟨sound, last, notHere, notUp, walked⟩ := found
  rw [keeps.origin]
  exact ⟨sound, last, notHere, notUp, keeps.walk walked⟩

end

/-- A directory on the way to the last step of a path. -/
def OnWay (d : Disk) (path : Path) (place : Location) : Prop :=
  ∃ steps, steps <+: path.steps.dropLast ∧ d.walk (d.origin path) steps = .ok place

theorem KeepsDirectories.on_way {before after : Disk} (keeps : before.KeepsDirectories after)
    {path : Path} {place : Location} (there : before.OnWay path place) :
    after.OnWay path place := by
  obtain ⟨steps, initial, walked⟩ := there
  refine ⟨steps, initial, ?_⟩
  rw [keeps.origin]
  exact keeps.walk walked

/-- The disk has grown: all that was there is there, and what is new are directories on the way to a
path. -/
structure Grows (path : Path) (before after : Disk) : Prop where
  home : after.home = before.home
  kept : ∀ place entry, before.find? place = some entry → after.find? place = some entry
  made : ∀ place entry, after.find? place = some entry → before.find? place = some entry ∨
    (before.find? place = none ∧ entry = .directory ∧ after.OnWay path place)

section

variable {path : Path} {before middle after : Disk}

theorem Grows.keeps_directories (grows : Grows path before after) : before.KeepsDirectories after :=
  ⟨grows.home, fun place there => grows.kept place _ there⟩

theorem Grows.refl (path : Path) (d : Disk) : Grows path d d :=
  ⟨rfl, fun _ _ there => there, fun _ _ there => Or.inl there⟩

theorem Grows.trans (first : Grows path before middle) (second : Grows path middle after) :
    Grows path before after where
  home := second.home.trans first.home
  kept := fun place entry there => second.kept place entry (first.kept place entry there)
  made := by
    intro place entry there
    rcases second.made place entry there with earlier | ⟨absent, directory, onWay⟩
    · rcases first.made place entry earlier with old | ⟨absent, directory, onWay⟩
      · exact Or.inl old
      · exact Or.inr ⟨absent, directory, second.keeps_directories.on_way onWay⟩
    · refine Or.inr ⟨?_, directory, onWay⟩
      cases old : before.find? place with
      | none => rfl
      | some known => rw [first.kept place known old] at absent; contradiction

theorem Grows.find_file (grows : Grows path before after) (place : Location) (content : Content) :
    after.find? place = some (.file content) ↔ before.find? place = some (.file content) := by
  refine ⟨fun there => ?_, grows.kept place _⟩
  rcases grows.made place _ there with old | ⟨_, directory, _⟩
  · exact old
  · contradiction

end

theorem make_directory_eq_ok {d after : Disk} {path : Path}
    (made : d.makeDirectory path = .ok after) :
    ∃ place name, d.goal path = .ok (.name place name) ∧ name.utf8ByteSize ≤ nameLimit ∧
      d.find? (place ++ [name]) = none ∧ after = d.put (place ++ [name]) .directory := by
  unfold makeDirectory lookup at made
  split at made
  · contradiction
  · contradiction
  · next place name goal =>
      by_cases long : nameLimit < name.utf8ByteSize
      · simp [long] at made
      · simp only [long, if_false] at made
        cases found : d.find? (place ++ [name]) with
        | some entry => simp [found] at made
        | none =>
            rw [found] at made
            exact ⟨place, name, goal, Nat.not_lt.1 long, found, (Except.ok.inj made).symm⟩

theorem grows_make_directory {d after : Disk} {part path : Path} (leads : part.Leads path)
    (made : d.makeDirectory part = .ok after) : Grows path d after := by
  obtain ⟨front, name, goal, short, absent, rfl⟩ := make_directory_eq_ok made
  have named : front ++ [name] ≠ [] := by simp
  have found := d.find_put named .directory
  have keeps : d.KeepsDirectories (d.put (front ++ [name]) .directory) := by
    refine ⟨home_put d _ _, fun place there => ?_⟩
    rw [found]
    split
    · rfl
    · exact there
  refine ⟨keeps.home, ?_, ?_⟩
  · intro place entry there
    rw [found, if_neg]
    · exact there
    · rintro rfl
      rw [absent] at there
      contradiction
  · intro place entry there
    rw [found] at there
    split at there
    · next same =>
        subst same
        refine Or.inr ⟨absent, (Option.some.inj there).symm, part.steps, leads.before, ?_⟩
        obtain ⟨_, last, notHere, notUp, walked⟩ := (goal_eq_name_iff _ _ _ _).1 (keeps.goal goal)
        have whole : part.steps.dropLast ++ [name] = part.steps :=
          List.dropLast_append_getLast? name last
        have start : Disk.origin (d.put (front ++ [name]) .directory) path =
            Disk.origin (d.put (front ++ [name]) .directory) part := by
          unfold Disk.origin
          rw [leads.absolute]
        rw [start, ← whole, walk_append _ walked, walk_singleton, enter_eq_ok_iff]
        exact Or.inr (Or.inr ⟨notHere, notUp, short, by rw [found, if_pos rfl], rfl⟩)
    · exact Or.inl there

theorem grows_ensure_directory {d after : Disk} {part path : Path} (leads : part.Leads path)
    (made : d.ensureDirectory part = .ok after) : Grows path d after := by
  unfold ensureDirectory at made
  split at made
  · next whole new =>
      rw [← Except.ok.inj made]
      exact grows_make_directory leads new
  · split at made
    · rw [← Except.ok.inj made]
      exact Grows.refl path d
    · contradiction

/-- Directories made one after the other, whether or not all of them can be. -/
theorem grows_ensure_first {path : Path} (parts : List Path) (d : Disk)
    (leads : ∀ part ∈ parts, part.Leads path) : Grows path d (ensureFirst parts d).1 := by
  induction parts with
  | nil => exact Grows.refl path d
  | cons part parents ih =>
      obtain ⟨first, others⟩ := List.forall_mem_cons.1 leads
      simp only [ensureFirst]
      split
      · next made there => exact grows_ensure_directory first there
      · have before := ih others
        split
        · next made fault run => exact run ▸ before
        · next made run =>
            rw [run] at before
            split
            · next whole there => exact before.trans (grows_ensure_directory first there)
            · exact before
      · exact Grows.refl path d

theorem grows_ensure_directories {d : Disk} {parent path : Path} (leads : parent.Leads path) :
    Grows path d (d.ensureDirectories parent).1 :=
  grows_ensure_first parent.ancestry d fun _ member =>
    (Path.begins_of_mem_ancestry member).leads leads

theorem is_directory_of_leads {d : Disk} {part path : Path} {place : Location} {name : String}
    (leads : part.Leads path) (found : d.goal path = .ok (.name place name)) :
    d.isDirectory part = true := by
  obtain ⟨sound, _, _, _, walked⟩ := (goal_eq_name_iff _ _ _ _).1 found
  have start : d.origin part = d.origin path := by
    unfold origin
    rw [leads.absolute]
  obtain ⟨target, there⟩ := d.walk_initial leads.before walked
  rw [← start] at there
  have free := leads.toBegins.fault sound
  cases last : part.steps.getLast? with
  | none =>
      have absolute := leads.filled (List.getLast?_eq_none_iff.1 last)
      simp [isDirectory, goal, free, last, absolute]
  | some step =>
      have whole : part.steps.dropLast ++ [step] = part.steps :=
        List.dropLast_append_getLast? step last
      obtain ⟨front, before⟩ := d.walk_initial (List.dropLast_prefix _) there
      rw [← whole, walk_append _ before, walk_singleton, enter_eq_ok_iff] at there
      rcases there with ⟨rfl, _⟩ | ⟨rfl, _⟩ | ⟨notHere, notUp, _, inside, _⟩
      · simp [isDirectory, goal, free, last, before]
      · simp [isDirectory, goal, free, last, before]
      · have named := (goal_eq_name_iff d part front step).2 ⟨free, last, notHere, notUp, before⟩
        simp [isDirectory, named, inside]

theorem ensure_directory_of_is_directory {d : Disk} {path : Path} (there : d.isDirectory path = true) :
    d.ensureDirectory path = .ok d := by
  unfold ensureDirectory
  split
  · next made new =>
      obtain ⟨place, name, goal, _, absent, _⟩ := make_directory_eq_ok new
      simp [isDirectory, goal, absent] at there
  · rw [if_pos there]

theorem ensure_directories_of_is_directory {d : Disk} {path : Path}
    (first : path.ancestry.head? = some path) (there : d.isDirectory path = true) :
    d.ensureDirectories path = (d, none) := by
  obtain ⟨parents, ancestry⟩ := List.head?_eq_some_iff.1 first
  rw [ensureDirectories, ancestry, ensureFirst, ensure_directory_of_is_directory there]

def fileOf? (d : Disk) (path : Path) : Option Location :=
  match d.goal path with
  | .ok (.name place name) => some (place ++ [name])
  | _ => none

theorem write_eq_ok {d after : Disk} {path : Path} {text : String}
    (written : d.write path text = .ok after) :
    ∃ place name, d.goal path = .ok (.name place name) ∧ path.closed = false ∧
      name.utf8ByteSize ≤ nameLimit ∧ d.find? (place ++ [name]) ≠ some .directory ∧
      after = d.put (place ++ [name]) (.file (.text text)) := by
  unfold write lookup at written
  split at written
  · contradiction
  · contradiction
  · next place name goal =>
      by_cases closed : path.closed = true
      · simp [closed] at written
      · by_cases long : nameLimit < name.utf8ByteSize
        · simp [closed, long] at written
        · simp only [closed, long, if_false] at written
          refine ⟨place, name, goal, by simpa using closed, Nat.not_lt.1 long, ?_⟩
          cases found : d.find? (place ++ [name]) with
          | none =>
              rw [found] at written
              exact ⟨by simp, (Except.ok.inj written).symm⟩
          | some entry =>
              rw [found] at written
              cases entry with
              | directory => contradiction
              | file content => exact ⟨by simp, (Except.ok.inj written).symm⟩

theorem keeps_directories_write {d after : Disk} {path : Path} {text : String}
    (written : d.write path text = .ok after) : d.KeepsDirectories after := by
  obtain ⟨front, name, _, _, _, free, rfl⟩ := write_eq_ok written
  refine ⟨home_put d _ _, fun place there => ?_⟩
  rw [find_put _ (by simp), if_neg]
  · exact there
  · rintro rfl
    exact free there

/-- A text that has been written can be read where it was written, and nothing else is changed. -/
theorem find_write {d after : Disk} {path : Path} {text : String}
    (written : d.write path text = .ok after) :
    ∃ file, after.fileOf? path = some file ∧ d.find? file ≠ some .directory ∧
      ∀ place, after.find? place =
        if file = place then some (.file (.text text)) else d.find? place := by
  have keeps := keeps_directories_write written
  obtain ⟨front, name, goal, _, _, free, rfl⟩ := write_eq_ok written
  refine ⟨front ++ [name], ?_, free, find_put d (by simp) _⟩
  rw [fileOf?, keeps.goal goal]

theorem read_write {d after : Disk} {path : Path} {text : String}
    (written : d.write path text = .ok after) : after.read path = .ok text := by
  have keeps := keeps_directories_write written
  obtain ⟨front, name, goal, opened, short, _, rfl⟩ := write_eq_ok written
  have found : Disk.find? (d.put (front ++ [name]) (.file (.text text))) (front ++ [name]) =
      some (.file (.text text)) := by
    rw [find_put _ (by simp), if_pos rfl]
  simp only [read, lookup, keeps.goal goal, found, opened, Nat.not_lt.2 short, if_false]
  rfl

end MessageSchema.Files.Disk
