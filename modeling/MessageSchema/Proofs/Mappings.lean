import MessageSchema.Proofs.KeyEquality

/-!
What entries written one after the other amount to: the keys stand in the order in which they first
came, and the value under a key is the one that came last.
-/

namespace MessageSchema.Yaml

set_option autoImplicit false

namespace Value

/-- Adds a key to the keys seen so far, unless an equal one is among them. -/
def note (seen : List Value) (key : Value) : List Value :=
  if seen.any (·.same key) then seen else seen ++ [key]

/-- The keys of a list without repetition, each where it first occurs. -/
def firsts (keys : List Value) : List Value := keys.foldl note []

theorem subset_foldl_note (keys seen : List Value) : ∀ key ∈ seen, key ∈ keys.foldl note seen := by
  induction keys generalizing seen with
  | nil => exact fun key member => member
  | cons next rest ih =>
      intro key member
      apply ih
      unfold note
      split
      · exact member
      · exact List.mem_append_left _ member

theorem mem_of_mem_foldl_note (keys seen : List Value) :
    ∀ key ∈ keys.foldl note seen, key ∈ seen ∨ key ∈ keys := by
  induction keys generalizing seen with
  | nil => exact fun key member => Or.inl member
  | cons next rest ih =>
      intro key member
      rcases ih _ key member with noted | later
      · unfold note at noted
        split at noted
        · exact Or.inl noted
        · rcases List.mem_append.1 noted with earlier | here
          · exact Or.inl earlier
          · exact Or.inr (by simp_all)
      · exact Or.inr (List.mem_cons_of_mem _ later)

theorem mem_of_mem_firsts {keys : List Value} {key : Value} (member : key ∈ firsts keys) :
    key ∈ keys := by
  rcases mem_of_mem_foldl_note keys [] key member with absent | present
  · simp at absent
  · exact present

theorem equal_mem_foldl_note (keys seen : List Value) {key : Value} (member : key ∈ keys) :
    ∃ first ∈ keys.foldl note seen, first.same key = true := by
  induction keys generalizing seen with
  | nil => simp at member
  | cons next rest ih =>
      rcases List.mem_cons.1 member with rfl | later
      · have noted : ∃ first ∈ note seen key, first.same key = true := by
          unfold note
          split
          · next known => exact List.any_eq_true.1 known
          · exact ⟨key, by simp, same_refl key⟩
        obtain ⟨first, firstMember, equal⟩ := noted
        exact ⟨first, subset_foldl_note rest _ first firstMember, equal⟩
      · exact ih _ later

theorem equal_mem_firsts {keys : List Value} {key : Value} (member : key ∈ keys) :
    ∃ first ∈ firsts keys, first.same key = true :=
  equal_mem_foldl_note keys [] member

theorem string_mem_firsts_iff (keys : List Value) (text : String) :
    string text ∈ firsts keys ↔ string text ∈ keys := by
  refine ⟨mem_of_mem_firsts, fun member => ?_⟩
  obtain ⟨first, firstMember, equal⟩ := equal_mem_firsts member
  rwa [same_string.1 equal] at firstMember

theorem foldl_note_of_distinct {keys : List Value}
    (distinct : keys.Pairwise fun a b => a.same b = false) (seen : List Value) :
    keys.foldl note seen = seen ++ keys.filter fun key => !seen.any (·.same key) := by
  induction keys generalizing seen with
  | nil => simp
  | cons key rest ih =>
      obtain ⟨apart, others⟩ := List.pairwise_cons.1 distinct
      rw [List.foldl_cons, ih others, note]
      split
      · next known => rw [List.filter_cons_of_neg (by simp [known])]
      · next unknown =>
          have same : rest.filter (fun later => !(seen ++ [key]).any (·.same later)) =
              rest.filter fun later => !seen.any (·.same later) := by
            apply List.filter_congr
            intro later member
            simp [apart later member]
          rw [same, List.filter_cons_of_pos (by simp [unknown]), List.append_assoc]
          rfl

end Value

namespace Mapping

open Value

def keys (entries : Mapping) : List Value := entries.map (·.1)

theorem keys_cons (entry : Value × Value) (rest : Mapping) :
    keys (entry :: rest) = entry.1 :: keys rest := rfl

theorem keys_append (front back : Mapping) : keys (front ++ back) = keys front ++ keys back :=
  List.map_append

def valueAt? (entries : Mapping) (key : Value) : Option Value :=
  (List.find? (fun entry => entry.1.same key) entries).map (·.2)

/-- The value that came last under a key. -/
def lastAt? (entries : Mapping) (key : Value) : Option Value := valueAt? entries.reverse key

/-- No key is equal to a later one. -/
def Distinct (entries : Mapping) : Prop := entries.Pairwise fun a b => a.1.same b.1 = false

theorem value_at_cons (entry : Value × Value) (rest : Mapping) (key : Value) :
    valueAt? (entry :: rest) key =
      if entry.1.same key then some entry.2 else valueAt? rest key := by
  unfold valueAt?
  rw [List.find?_cons]
  cases entry.1.same key <;> simp

theorem find_eq_value_at (entries : Mapping) (name : String) :
    entries.find? name = entries.valueAt? (.string name) := by
  unfold Mapping.find? valueAt?
  congr 2
  funext entry
  rw [Bool.eq_iff_iff, is_string_iff, same_string]

theorem last_at_append (front back : Mapping) (key : Value) :
    lastAt? (front ++ back) key = (lastAt? back key).or (lastAt? front key) := by
  simp only [lastAt?, valueAt?, List.reverse_append, List.find?_append, Option.map_or]

theorem last_at_concat (entries : Mapping) (entry : Value × Value) (key : Value) :
    lastAt? (entries ++ [entry]) key =
      if entry.1.same key then some entry.2 else lastAt? entries key := by
  rw [last_at_append]
  have single : lastAt? [entry] key = if entry.1.same key then some entry.2 else none := by
    simp [lastAt?, valueAt?]
  rw [single]
  split <;> rfl

theorem keys_insert (entries : Mapping) (key value : Value) :
    keys (insert entries key value) = note (keys entries) key := by
  induction entries with
  | nil => simp [Mapping.insert, keys, note]
  | cons entry rest ih =>
      simp only [keys, note, List.any_map] at ih
      simp only [Mapping.insert]
      split
      · next equal => simp [keys, note, equal]
      · next different =>
          simp only [keys, List.map_cons, ih, note, List.any_cons, List.any_map, different,
            Bool.false_or]
          split <;> rfl

theorem insert_all_nil (entries : Mapping) : insertAll entries [] = entries := rfl

theorem insert_all_cons (entries rest : Mapping) (key value : Value) :
    insertAll entries ((key, value) :: rest) = insertAll (insert entries key value) rest := rfl

theorem keys_insert_all (entries added : Mapping) :
    keys (insertAll entries added) = (keys added).foldl note (keys entries) := by
  induction added generalizing entries with
  | nil => rfl
  | cons entry rest ih => rw [insert_all_cons, ih, keys_insert, keys_cons, List.foldl_cons]

theorem keys_of_entries (entries : Mapping) : keys (ofEntries entries) = firsts (keys entries) :=
  keys_insert_all [] entries

theorem insert_all_append (entries first second : Mapping) :
    insertAll entries (first ++ second) = insertAll (insertAll entries first) second := by
  simp [insertAll, List.foldl_append]

theorem of_entries_concat (entries : Mapping) (key value : Value) :
    ofEntries (entries ++ [(key, value)]) = insert (ofEntries entries) key value := by
  rw [ofEntries, insert_all_append, insert_all_cons, insert_all_nil, ofEntries]

theorem insert_of_absent (entries : Mapping) (key value : Value)
    (absent : ∀ entry ∈ entries, entry.1.same key = false) :
    insert entries key value = entries ++ [(key, value)] := by
  induction entries with
  | nil => rfl
  | cons entry rest ih =>
      have first := absent entry (by simp)
      have others := ih fun later member => absent later (by simp [member])
      simp [Mapping.insert, first, others]

/-- Where an equal key is found, only the value behind it is replaced. -/
theorem insert_of_present (entries : Mapping) (key value : Value)
    (present : ∃ entry ∈ entries, entry.1.same key = true) :
    ∃ front found old back, entries = front ++ (found, old) :: back ∧
      found.same key = true ∧ insert entries key value = front ++ (found, value) :: back := by
  induction entries with
  | nil => simp at present
  | cons entry rest ih =>
      rcases entry with ⟨k, v⟩
      by_cases equal : k.same key = true
      · exact ⟨[], k, v, rest, rfl, equal, by simp [Mapping.insert, equal]⟩
      · have later : ∃ entry ∈ rest, entry.1.same key = true := by simpa [equal] using present
        obtain ⟨front, found, old, back, split, same, result⟩ := ih later
        exact ⟨(k, v) :: front, found, old, back, by simp [split], same, by
          simp [Mapping.insert, equal, result]⟩

theorem insert_append (front back : Mapping) (key value : Value) :
    insert (front ++ back) key value =
      if contains front key then insert front key value ++ back
      else front ++ insert back key value := by
  induction front with
  | nil => rfl
  | cons entry rest ih =>
      rcases entry with ⟨k, v⟩
      by_cases equal : k.same key = true
      · simp [Mapping.insert, contains, equal]
      · simp only [contains] at ih
        simp only [List.cons_append, Mapping.insert, contains, List.any_cons, equal, ih,
          Bool.false_eq_true, if_false, Bool.false_or]
        by_cases later : (rest.any fun entry => entry.1.same key) = true
        · simp only [later, if_true]
        · simp only [later, Bool.false_eq_true, if_false]

theorem length_insert (entries : Mapping) (key value : Value) :
    (insert entries key value).length =
      if contains entries key then entries.length else entries.length + 1 := by
  have size : (insert entries key value).length = (note (keys entries) key).length := by
    rw [← keys_insert, keys, List.length_map]
  rw [size, note, keys, List.any_map]
  by_cases known : (entries.any fun entry => entry.1.same key) = true <;>
    simp [contains, Function.comp_def, known]

theorem mem_keys_insert {entries : Mapping} {key value other : Value}
    (member : other ∈ keys (insert entries key value)) : other ∈ keys entries ∨ other = key := by
  rw [keys_insert, note] at member
  split at member
  · exact Or.inl member
  · simpa using member

theorem distinct_insert {entries : Mapping} (distinct : Distinct entries) (key value : Value) :
    Distinct (insert entries key value) := by
  by_cases present : ∃ entry ∈ entries, entry.1.same key = true
  · obtain ⟨front, found, old, back, split, _, result⟩ :=
      insert_of_present entries key value present
    rw [result]
    subst split
    simpa [Distinct, List.pairwise_append, List.pairwise_cons] using distinct
  · have absent : ∀ entry ∈ entries, entry.1.same key = false := by simpa using present
    rw [insert_of_absent entries key value absent]
    refine List.pairwise_append.2 ⟨distinct, List.pairwise_singleton _ _, ?_⟩
    intro entry member last here
    rw [List.mem_singleton.1 here]
    exact absent entry member

theorem distinct_insert_all {entries : Mapping} (distinct : Distinct entries) (added : Mapping) :
    Distinct (insertAll entries added) := by
  induction added generalizing entries with
  | nil => exact distinct
  | cons entry rest ih => exact ih (distinct_insert distinct entry.1 entry.2)

theorem distinct_of_entries (entries : Mapping) : Distinct (ofEntries entries) :=
  distinct_insert_all List.Pairwise.nil entries

theorem insert_all_of_distinct (entries added : Mapping) (distinct : Distinct (entries ++ added)) :
    insertAll entries added = entries ++ added := by
  induction added generalizing entries with
  | nil => simp [insertAll]
  | cons entry rest ih =>
      rcases entry with ⟨key, value⟩
      have absent : ∀ earlier ∈ entries, earlier.1.same key = false := by
        intro earlier member
        exact (List.pairwise_append.1 distinct).2.2 earlier member (key, value) (by simp)
      rw [insert_all_cons, insert_of_absent _ _ _ absent, ih _ (by simpa using distinct)]
      simp

theorem replaced_append (base first second : Mapping) :
    replaced base (first ++ second) = replaced base first ++ replaced (insertAll base first) second := by
  induction first generalizing base with
  | nil => rfl
  | cons entry rest ih =>
      rcases entry with ⟨key, value⟩
      simp only [List.cons_append, replaced, ih, insert_all_cons]
      split
      · rw [List.cons_append]
      · rfl

theorem length_insert_all_add_replaced (base added : Mapping) :
    (insertAll base added).length + (replaced base added).length = base.length + added.length := by
  induction added generalizing base with
  | nil => rfl
  | cons entry rest ih =>
      rcases entry with ⟨key, value⟩
      have step := ih (insert base key value)
      rw [length_insert] at step
      rw [insert_all_cons, replaced, List.length_cons]
      by_cases known : contains base key = true
      · rw [if_pos known] at step ⊢
        rw [List.length_cons]
        omega
      · rw [if_neg known] at step ⊢
        omega

theorem insert_all_of_replaced {entries added : Mapping} (fresh : replaced entries added = []) :
    insertAll entries added = entries ++ added := by
  induction added generalizing entries with
  | nil => simp [insertAll]
  | cons entry rest ih =>
      rcases entry with ⟨key, value⟩
      simp only [replaced] at fresh
      split at fresh
      · contradiction
      · next unknown =>
          have absent : ∀ earlier ∈ entries, earlier.1.same key = false := by
            simpa [Mapping.contains] using unknown
          rw [insert_all_cons, ih fresh, insert_of_absent _ _ _ absent]
          simp

theorem of_entries_of_distinct {entries : Mapping} (distinct : Distinct entries) :
    ofEntries entries = entries :=
  insert_all_of_distinct [] entries distinct

/-- All keys can be compared in either direction. -/
def Keyed (entries : Mapping) : Prop := ∀ entry ∈ entries, entry.1.WellKeyed

theorem keyed_cons {entry : Value × Value} {rest : Mapping} :
    Keyed (entry :: rest) ↔ entry.1.WellKeyed ∧ Keyed rest := List.forall_mem_cons

theorem keyed_append {front back : Mapping} :
    Keyed (front ++ back) ↔ Keyed front ∧ Keyed back := List.forall_mem_append

theorem keyed_insert {entries : Mapping} {key : Value} (keyed : Keyed entries)
    (wellKeyed : key.WellKeyed) (value : Value) : Keyed (insert entries key value) := by
  intro entry member
  have listed : entry.1 ∈ keys (insert entries key value) := List.mem_map_of_mem member
  rcases mem_keys_insert listed with earlier | here
  · obtain ⟨source, sourceMember, same⟩ := List.mem_map.1 earlier
    exact same ▸ keyed source sourceMember
  · exact here ▸ wellKeyed

theorem keyed_insert_all {entries added : Mapping} (keyed : Keyed entries)
    (keyedAdded : Keyed added) : Keyed (insertAll entries added) := by
  induction added generalizing entries with
  | nil => exact keyed
  | cons entry rest ih =>
      have parts := keyed_cons.1 keyedAdded
      exact ih (keyed_insert keyed parts.1 entry.2) parts.2

theorem keyed_of_entries {entries : Mapping} (keyed : Keyed entries) : Keyed (ofEntries entries) :=
  keyed_insert_all (fun _ member => by simp at member) keyed

theorem mem_insert {entries : Mapping} {key value : Value} {entry : Value × Value}
    (member : entry ∈ insert entries key value) :
    entry ∈ entries ∨ (entry.2 = value ∧ entry.1.same key = true) := by
  induction entries with
  | nil =>
      rw [show insert [] key value = [(key, value)] from rfl, List.mem_singleton] at member
      exact Or.inr ⟨by rw [member], by rw [member]; exact Value.same_refl key⟩
  | cons first rest ih =>
      simp only [Mapping.insert] at member
      split at member
      · next equal =>
          rcases List.mem_cons.1 member with rfl | later
          · exact Or.inr ⟨rfl, equal⟩
          · exact Or.inl (List.mem_cons_of_mem _ later)
      · rcases List.mem_cons.1 member with rfl | later
        · exact Or.inl (List.mem_cons_self ..)
        · rcases ih later with there | here
          · exact Or.inl (List.mem_cons_of_mem _ there)
          · exact Or.inr here

theorem well_keyed_insert {entries : Mapping} {key value : Value}
    (wellKeyed : (mapping entries).WellKeyed) (wellKeyedKey : key.WellKeyed)
    (wellKeyedValue : value.WellKeyed) : (mapping (insert entries key value)).WellKeyed := by
  have inside := (well_keyed_entries_iff entries).1 wellKeyed.2
  have keyed := keyed_insert (fun entry member => (inside entry member).1) wellKeyedKey value
  refine ⟨distinct_insert wellKeyed.1 key value, (well_keyed_entries_iff _).2 ?_⟩
  intro entry member
  rcases mem_insert member with earlier | ⟨here, _⟩
  · exact inside entry earlier
  · exact ⟨keyed entry member, here ▸ wellKeyedValue⟩

theorem well_keyed_insert_all {entries added : Mapping} (wellKeyed : (mapping entries).WellKeyed)
    (wellKeyedAdded : WellKeyedEntries added) :
    (mapping (insertAll entries added)).WellKeyed := by
  induction added generalizing entries with
  | nil => exact wellKeyed
  | cons entry rest ih =>
      obtain ⟨⟨key, value⟩, others⟩ := wellKeyedAdded
      exact ih (well_keyed_insert wellKeyed key value) others

theorem well_keyed_of_entries {entries : Mapping} (wellKeyed : WellKeyedEntries entries) :
    (mapping (ofEntries entries)).WellKeyed :=
  well_keyed_insert_all ⟨List.Pairwise.nil, trivial⟩ wellKeyed

/-- Every entry of a merge has its value from an entry with an equal key. -/
theorem source_of_mem_of_entries {entries : Mapping} {entry : Value × Value}
    (member : entry ∈ ofEntries entries) :
    ∃ source ∈ entries, source.2 = entry.2 ∧ entry.1.same source.1 = true := by
  induction entries using List.reverseRecOn with
  | nil => simp [ofEntries, insert_all_nil] at member
  | append_singleton entries last ih =>
      rw [of_entries_concat] at member
      rcases mem_insert member with earlier | ⟨value, equal⟩
      · obtain ⟨source, sourceMember, same⟩ := ih earlier
        exact ⟨source, List.mem_append_left _ sourceMember, same⟩
      · exact ⟨last, by simp, value.symm, equal⟩

theorem exists_of_value_at {entries : Mapping} {key value : Value}
    (found : valueAt? entries key = some value) :
    ∃ entry ∈ entries, entry.1.same key = true ∧ entry.2 = value := by
  obtain ⟨entry, hit, same⟩ := Option.map_eq_some_iff.1 found
  have equal := List.find?_some hit
  exact ⟨entry, List.mem_of_find?_eq_some hit, equal, same⟩

theorem exists_of_last_at {entries : Mapping} {key value : Value}
    (found : lastAt? entries key = some value) :
    ∃ entry ∈ entries, entry.1.same key = true ∧ entry.2 = value := by
  obtain ⟨entry, member, parts⟩ := exists_of_value_at found
  exact ⟨entry, List.mem_reverse.1 member, parts⟩

theorem eq_of_same {entries : Mapping} (distinct : Distinct entries) (keyed : Keyed entries)
    {a b : Value × Value} (memberA : a ∈ entries) (memberB : b ∈ entries)
    (equal : a.1.same b.1 = true) : a = b := by
  induction entries with
  | nil => simp at memberA
  | cons first rest ih =>
      have parts := List.pairwise_cons.1 distinct
      have inner := keyed_cons.1 keyed
      rcases List.mem_cons.1 memberA with rfl | laterA
      · rcases List.mem_cons.1 memberB with rfl | laterB
        · rfl
        · simp [parts.1 b laterB] at equal
      · rcases List.mem_cons.1 memberB with rfl | laterB
        · have turned := same_symm _ _ (inner.2 a laterA) inner.1 equal
          simp [parts.1 a laterA] at turned
        · exact ih parts.2 inner.2 laterA laterB

theorem value_at_insert {entries : Mapping} {key other : Value} (value : Value)
    (keyed : Keyed entries) (wellKeyed : key.WellKeyed) (wellKeyed' : other.WellKeyed) :
    valueAt? (insert entries key value) other =
      if key.same other then some value else valueAt? entries other := by
  induction entries with
  | nil => simp [Mapping.insert, valueAt?]
  | cons entry rest ih =>
      rcases entry with ⟨k, v⟩
      have parts := keyed_cons.1 keyed
      simp only [Mapping.insert]
      by_cases equal : k.same key = true
      · have back := same_symm _ _ parts.1 wellKeyed equal
        have both : k.same other = key.same other := by
          rw [Bool.eq_iff_iff]
          exact ⟨same_trans _ _ _ back, same_trans _ _ _ equal⟩
        rw [if_pos equal, value_at_cons, value_at_cons, both]
        split <;> rfl
      · rw [if_neg equal, value_at_cons, value_at_cons, ih parts.2]
        by_cases hit : k.same other = true
        · have apart : ¬key.same other = true := fun same =>
            equal (same_trans _ _ _ hit (same_symm _ _ wellKeyed wellKeyed' same))
          rw [if_pos hit, if_neg apart, if_pos hit]
        · rw [if_neg hit, if_neg hit]

theorem last_at_cons (entry : Value × Value) (rest : Mapping) (key : Value) :
    lastAt? (entry :: rest) key =
      (lastAt? rest key).or (if entry.1.same key then some entry.2 else none) := by
  have split := last_at_append [entry] rest key
  have single := last_at_concat [] entry key
  simp only [List.singleton_append, List.nil_append] at split single
  rw [split, single]
  rfl

/-- After entries have been added, the last of them under a key counts, and without one what was
there before. -/
theorem value_at_insert_all {entries added : Mapping} {key : Value} (keyed : Keyed entries)
    (keyedAdded : Keyed added) (wellKeyed : key.WellKeyed) :
    valueAt? (insertAll entries added) key = (lastAt? added key).or (valueAt? entries key) := by
  induction added generalizing entries with
  | nil => rfl
  | cons entry rest ih =>
      have parts := keyed_cons.1 keyedAdded
      rw [insert_all_cons, ih (keyed_insert keyed parts.1 _) parts.2,
        value_at_insert _ keyed parts.1 wellKeyed, last_at_cons, Option.or_assoc]
      congr 1
      split <;> rfl

theorem value_at_of_entries {entries : Mapping} {key : Value} (keyed : Keyed entries)
    (wellKeyed : key.WellKeyed) : valueAt? (ofEntries entries) key = lastAt? entries key := by
  rw [ofEntries, value_at_insert_all (fun _ member => by simp at member) keyed wellKeyed]
  cases lastAt? entries key <;> rfl

theorem value_at_of_mem {entries : Mapping} (distinct : Distinct entries) {entry : Value × Value}
    (member : entry ∈ entries) : valueAt? entries entry.1 = some entry.2 := by
  induction entries with
  | nil => simp at member
  | cons first rest ih =>
      have parts := List.pairwise_cons.1 distinct
      rw [value_at_cons]
      rcases List.mem_cons.1 member with rfl | later
      · rw [if_pos (same_refl _)]
      · rw [if_neg (by simp [parts.1 entry later])]
        exact ih parts.2 later

theorem eq_of_key {entries : Mapping} (distinct : Distinct entries) {a b : Value × Value}
    (memberA : a ∈ entries) (memberB : b ∈ entries) (key : a.1 = b.1) : a = b := by
  have value := value_at_of_mem distinct memberA
  rw [key, value_at_of_mem distinct memberB] at value
  exact Prod.ext key (Option.some.inj value.symm)

/-- Distinct entries in one order of keys are known by their members. -/
theorem eq_of_keys {first second : Mapping} (distinct : Distinct second)
    (order : keys first = keys second) (within : ∀ entry ∈ first, entry ∈ second) :
    first = second := by
  have sizes : first.length = second.length := by
    simpa [keys] using congrArg List.length order
  apply List.ext_getElem sizes
  intro i bound bound'
  apply eq_of_key distinct (within _ (List.getElem_mem bound)) (List.getElem_mem bound')
  have same : (keys first)[i]? = (keys second)[i]? := by rw [order]
  simpa [keys, bound, bound'] using same

theorem nodup_of_distinct {entries : Mapping} (distinct : Distinct entries) : entries.Nodup := by
  refine List.Pairwise.imp ?_ distinct
  rintro a b different rfl
  simp [same_refl] at different

theorem find_eq_some_iff {entries : Mapping} (distinct : Distinct entries) (name : String)
    (value : Value) : entries.find? name = some value ↔ (.string name, value) ∈ entries := by
  constructor
  · intro found
    obtain ⟨entry, hit, same⟩ := Option.map_eq_some_iff.1 found
    have named := List.find?_some hit
    have whole : entry = (.string name, value) := Prod.ext (is_string_iff.1 named) same
    exact whole ▸ List.mem_of_find?_eq_some hit
  · intro member
    rw [find_eq_value_at]
    exact value_at_of_mem distinct member

/-- Entries with equal keys are one: it stands where the first of them stood and has the value of
the last. -/
structure Merges (entries merged : Mapping) : Prop where
  order : keys merged = firsts (keys entries)
  bodies : ∀ entry ∈ merged, lastAt? entries entry.1 = some entry.2

theorem merges_iff {entries : Mapping} (keyed : Keyed entries) (merged : Mapping) :
    Merges entries merged ↔ merged = ofEntries entries := by
  have order := keys_of_entries entries
  have bodies : ∀ entry ∈ ofEntries entries, lastAt? entries entry.1 = some entry.2 := by
    intro entry member
    rw [← value_at_of_entries keyed (keyed_of_entries keyed entry member)]
    exact value_at_of_mem (distinct_of_entries entries) member
  constructor
  · intro merges
    have same : keys merged = keys (ofEntries entries) := merges.order.trans order.symm
    refine eq_of_keys (distinct_of_entries entries) same fun entry member => ?_
    have listed : entry.1 ∈ keys (ofEntries entries) := same ▸ List.mem_map_of_mem member
    obtain ⟨other, there, key⟩ := List.mem_map.1 listed
    have value := bodies other there
    rw [key, merges.bodies entry member, Option.some.injEq] at value
    exact (Prod.ext key value.symm : other = entry) ▸ there
  · rintro rfl
    exact ⟨order, bodies⟩

theorem last_at_of_distinct {entries : Mapping} {key : Value} (distinct : Distinct entries)
    (keyed : Keyed entries) (wellKeyed : key.WellKeyed) :
    lastAt? entries key = valueAt? entries key := by
  rw [← value_at_of_entries keyed wellKeyed, of_entries_of_distinct distinct]

theorem insert_insert {entries : Mapping} {first second : Value} (old value : Value)
    (keyed : Keyed entries) (wellKeyed : first.WellKeyed) (wellKeyed' : second.WellKeyed)
    (equal : first.same second = true) :
    insert (insert entries first old) second value = insert entries first value := by
  induction entries with
  | nil => simp [Mapping.insert, equal]
  | cons entry rest ih =>
      rcases entry with ⟨k, v⟩
      have parts := keyed_cons.1 keyed
      have back := same_symm _ _ wellKeyed wellKeyed' equal
      have both : k.same first = k.same second := by
        rw [Bool.eq_iff_iff]
        exact ⟨fun same => same_trans _ _ _ same equal, fun same => same_trans _ _ _ same back⟩
      by_cases hit : k.same first = true
      · have hit' : k.same second = true := both ▸ hit
        simp [Mapping.insert, hit, hit']
      · have miss : ¬k.same second = true := both ▸ hit
        simp [Mapping.insert, hit, miss, ih parts.2]

/-- Replacing a value that is there does not depend on what else is added. -/
theorem insert_comm {entries : Mapping} {key other : Value} (value value' : Value)
    (keyed : Keyed entries) (wellKeyed : key.WellKeyed) (apart : key.same other = false)
    (present : ∃ entry ∈ entries, entry.1.same key = true) :
    insert (insert entries other value') key value =
      insert (insert entries key value) other value' := by
  induction entries with
  | nil => simp at present
  | cons entry rest ih =>
      rcases entry with ⟨k, v⟩
      have parts := keyed_cons.1 keyed
      by_cases hit : k.same key = true
      · have miss : ¬k.same other = true := fun same => by
          have met := same_trans _ _ _ (same_symm _ _ parts.1 wellKeyed hit) same
          simp [apart] at met
        simp [Mapping.insert, hit, miss]
      · have later : ∃ entry ∈ rest, entry.1.same key = true := by simpa [hit] using present
        by_cases hit' : k.same other = true
        · simp [Mapping.insert, hit, hit']
        · simp [Mapping.insert, hit, hit', ih parts.2 later]

theorem present_insert {entries : Mapping} {key : Value} (other value : Value)
    (present : ∃ entry ∈ entries, entry.1.same key = true) :
    ∃ entry ∈ insert entries other value, entry.1.same key = true := by
  obtain ⟨entry, member, equal⟩ := present
  have listed : entry.1 ∈ keys (insert entries other value) := by
    rw [keys_insert]
    exact subset_foldl_note [other] (keys entries) _ (List.mem_map_of_mem member)
  obtain ⟨source, sourceMember, same⟩ := List.mem_map.1 listed
  exact ⟨source, sourceMember, same ▸ equal⟩

theorem insert_all_insert {entries added : Mapping} {key : Value} (value : Value)
    (keyed : Keyed entries) (keyedAdded : Keyed added) (wellKeyed : key.WellKeyed)
    (apart : ∀ entry ∈ added, key.same entry.1 = false)
    (present : ∃ entry ∈ entries, entry.1.same key = true) :
    insert (insertAll entries added) key value = insertAll (insert entries key value) added := by
  induction added generalizing entries with
  | nil => rfl
  | cons entry rest ih =>
      have parts := keyed_cons.1 keyedAdded
      have first := apart entry (by simp)
      have others : ∀ later ∈ rest, key.same later.1 = false :=
        fun later member => apart later (by simp [member])
      rw [insert_all_cons, insert_all_cons,
        ih (keyed_insert keyed parts.1 _) parts.2 others (present_insert _ _ present),
        insert_comm _ _ keyed wellKeyed first present]

theorem present_insert_self (entries : Mapping) (key value : Value) :
    ∃ entry ∈ insert entries key value, entry.1.same key = true := by
  by_cases present : ∃ entry ∈ entries, entry.1.same key = true
  · exact present_insert key value present
  · have absent : ∀ entry ∈ entries, entry.1.same key = false := by simpa using present
    rw [insert_of_absent entries key value absent]
    exact ⟨(key, value), by simp, same_refl key⟩

def mapKeys (change : Value → Value) (entries : Mapping) : Mapping :=
  entries.map fun entry => (change entry.1, entry.2)

theorem map_keys_id (entries : Mapping) : mapKeys id entries = entries := by simp [mapKeys]

theorem map_keys_of_fixed {change : Value → Value} {entries : Mapping}
    (fixed : ∀ entry ∈ entries, change entry.1 = entry.1) : mapKeys change entries = entries := by
  have same : mapKeys change entries = mapKeys id entries :=
    List.map_congr_left fun entry member => Prod.ext (fixed entry member) rfl
  rw [same, map_keys_id]

theorem map_keys_append (change : Value → Value) (front back : Mapping) :
    mapKeys change (front ++ back) = mapKeys change front ++ mapKeys change back := by
  simp [mapKeys]

theorem map_keys_cons (change : Value → Value) (key value : Value) (rest : Mapping) :
    mapKeys change ((key, value) :: rest) = (change key, value) :: mapKeys change rest := rfl

theorem keyed_map_keys {change : Value → Value} {entries : Mapping}
    (keyed : ∀ entry ∈ entries, (change entry.1).WellKeyed) : Keyed (mapKeys change entries) := by
  intro entry member
  obtain ⟨source, sourceMember, rfl⟩ := List.mem_map.1 member
  exact keyed source sourceMember

theorem mem_keys_of_entries {entries : Mapping} {entry : Value × Value}
    (member : entry ∈ ofEntries entries) : ∃ source ∈ entries, source.1 = entry.1 := by
  have listed : entry.1 ∈ keys (ofEntries entries) := List.mem_map_of_mem member
  rw [keys_of_entries] at listed
  exact List.mem_map.1 (mem_of_mem_firsts listed)

/-- A value added under a key that is there already might as well have been there from the first. -/
theorem insert_all_replace {base front back : Mapping} {found key old : Value} (value : Value)
    (keyedBase : Keyed base) (keyed : Keyed (front ++ (found, old) :: back))
    (wellKeyed : key.WellKeyed) (equal : found.same key = true)
    (apart : ∀ entry ∈ back, key.same entry.1 = false) :
    insert (insertAll base (front ++ (found, old) :: back)) key value =
      insertAll base (front ++ (found, value) :: back) := by
  obtain ⟨keyedFront, keyedRest⟩ := keyed_append.1 keyed
  obtain ⟨keyedFound, keyedBack⟩ := keyed_cons.1 keyedRest
  have before := keyed_insert_all keyedBase keyedFront
  have there : ∃ entry ∈ insert (insertAll base front) found old, entry.1.same key = true := by
    obtain ⟨entry, member, same⟩ := present_insert_self (insertAll base front) found old
    exact ⟨entry, member, same_trans _ _ _ same equal⟩
  rw [insert_all_append, insert_all_append, insert_all_cons, insert_all_cons,
    insert_all_insert value (keyed_insert before keyedFound old) keyedBack wellKeyed apart there,
    insert_insert old value before keyedFound wellKeyed equal]

/-- Merging equal keys first makes no difference to entries whose keys are changed and added
afterwards, provided that a key that has been merged meets after the change exactly those that it
met before. Without this a body that was merged away could have been the last one. -/
theorem insert_all_map_keys_of_entries (change : Value → Value) {base entries : Mapping}
    (keyedBase : Keyed base)
    (keyedImage : ∀ entry ∈ entries, (change entry.1).WellKeyed)
    (settled : entries.Pairwise fun a b => a.1.same b.1 = true →
      ∀ entry ∈ entries, a.1.same entry.1 = (change a.1).same (change entry.1)) :
    insertAll base (mapKeys change (ofEntries entries)) =
      insertAll base (mapKeys change entries) := by
  induction entries using List.reverseRecOn with
  | nil => rfl
  | append_singleton entries last ih =>
      rcases last with ⟨key, value⟩
      have images := List.forall_mem_append.1 keyedImage
      have imageKeyed : (change key).WellKeyed := images.2 (key, value) (by simp)
      have order := List.pairwise_append.1 settled
      have earlier := ih images.1 (order.1.imp fun meets equal entry member =>
        meets equal entry (List.mem_append_left _ member))
      have merged : Keyed (mapKeys change (ofEntries entries)) := by
        apply keyed_map_keys
        intro entry member
        obtain ⟨source, sourceMember, same⟩ := mem_keys_of_entries member
        exact same ▸ images.1 source sourceMember
      rw [of_entries_concat, map_keys_append, insert_all_append, ← earlier]
      by_cases present : ∃ entry ∈ ofEntries entries, entry.1.same key = true
      · obtain ⟨front, found, old, back, split, equal, result⟩ :=
          insert_of_present (ofEntries entries) key value present
        have distinct := distinct_of_entries entries
        rw [split] at distinct
        -- The key that was found is that of an earlier entry, so it is settled.
        have listed : (found, old) ∈ ofEntries entries := by simp [split]
        obtain ⟨origin, originMember, originKey⟩ := mem_keys_of_entries listed
        simp only at originKey
        have meets := order.2.2 origin originMember (key, value) (by simp) (originKey ▸ equal)
        rw [originKey] at meets
        have toKey : (change found).same (change key) = true := by
          rw [← meets (key, value) (by simp)]
          exact equal
        have apart : ∀ entry ∈ mapKeys change back, (change key).same entry.1 = false := by
          intro entry member
          obtain ⟨later, laterMember, rfl⟩ := List.mem_map.1 member
          have laterListed : later ∈ ofEntries entries := by simp [split, laterMember]
          obtain ⟨source, sourceMember, same⟩ := mem_keys_of_entries laterListed
          have different : found.same later.1 = false :=
            (List.pairwise_cons.1 (List.pairwise_append.1 distinct).2.1).1 later laterMember
          have image := meets source (List.mem_append_left _ sourceMember)
          rw [same, different] at image
          rw [← Bool.not_eq_true]
          intro met
          simp [same_trans _ _ _ toKey met] at image
        rw [split, map_keys_append, map_keys_cons] at merged
        rw [result, split, map_keys_append, map_keys_append, map_keys_cons, map_keys_cons]
        exact (insert_all_replace value keyedBase merged imageKeyed toKey apart).symm
      · have absent : ∀ entry ∈ ofEntries entries, entry.1.same key = false := by
          simpa using present
        rw [insert_of_absent _ _ _ absent, map_keys_append, insert_all_append]

/-- Entries can be merged among themselves before they are added. -/
theorem insert_all_of_entries {base entries : Mapping} (keyedBase : Keyed base)
    (keyed : Keyed entries) : insertAll base (ofEntries entries) = insertAll base entries := by
  have merged := insert_all_map_keys_of_entries id keyedBase keyed
    (List.pairwise_of_forall fun _ _ _ _ _ => rfl)
  rwa [map_keys_id, map_keys_id] at merged

end Mapping

theorem well_keyed_of_entries {value : Value} {entries : Mapping} (wellKeyed : value.WellKeyed)
    (seen : value.entries? = some entries) : (Value.mapping entries).WellKeyed := by
  have inside : value.untag.WellKeyed := by
    clear seen
    induction value using Value.untag.induct with
    | case1 tag value ih => exact ih wellKeyed
    | case2 value plain => simpa [Value.untag] using wellKeyed
  unfold Value.entries? at seen
  split at seen
  · next found untagged =>
      rw [untagged] at inside
      rwa [← Option.some.inj seen]
  · contradiction

theorem well_keyed_of_find {entries : Mapping} {name : String} {value : Value}
    (wellKeyed : (Value.mapping entries).WellKeyed)
    (found : entries.find? name = some value) : value.WellKeyed := by
  obtain ⟨entry, hit, rfl⟩ := Option.map_eq_some_iff.1 found
  exact ((Value.well_keyed_entries_iff entries).1 wellKeyed.2 entry (List.mem_of_find?_eq_some hit)).2

theorem well_keyed_of_get {value found : Value} {name : String} (wellKeyed : value.WellKeyed)
    (seen : value.get? name = some found) : found.WellKeyed := by
  obtain ⟨entries, inside, hit⟩ := Option.bind_eq_some_iff.1 seen
  exact well_keyed_of_find (well_keyed_of_entries wellKeyed inside) hit

end MessageSchema.Yaml
