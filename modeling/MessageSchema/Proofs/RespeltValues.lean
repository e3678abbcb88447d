import MessageSchema.Proofs.RespeltNodes
import MessageSchema.Proofs.ReadDocuments

/-!
The value of a text whose words are changed. Every string of the value is changed and everything else
stays, so the changed text holds the changed value, unless two keys of a mapping that differed have
become the same. That is the only way in which reading a changed document can fail.
-/

namespace MessageSchema.Yaml

set_option autoImplicit false

open Text

variable {r : Respelling}

namespace Value

mutual

def respelt (r : Respelling) : Value → Value
  | string text => string (respeltString r text)
  | sequence items => sequence (respeltItems r items)
  | mapping entries => mapping (respeltEntries r entries)
  | tagged tag value => tagged tag (respelt r value)
  | value => value

def respeltItems (r : Respelling) : List Value → List Value
  | [] => []
  | item :: rest => respelt r item :: respeltItems r rest

def respeltEntries (r : Respelling) : List (Value × Value) → List (Value × Value)
  | [] => []
  | (key, value) :: rest => (respelt r key, respelt r value) :: respeltEntries r rest

end

theorem respelt_items_eq (items : List Value) : respeltItems r items = items.map (respelt r) := by
  induction items with
  | nil => rfl
  | cons item rest ih => rw [respeltItems, ih, List.map_cons]

theorem respelt_entries_eq (entries : List (Value × Value)) :
    respeltEntries r entries = entries.map (Prod.map (respelt r) (respelt r)) := by
  induction entries with
  | nil => rfl
  | cons entry rest ih => rw [respeltEntries, ih, List.map_cons, Prod.map]

end Value

namespace Node

theorem respelt_items_eq (items : List Node) : respeltItems r items = items.map (respelt r) := by
  induction items with
  | nil => rfl
  | cons item rest ih => rw [respeltItems, ih, List.map_cons]

theorem respelt_entries_eq (entries : List (Node × Node)) :
    respeltEntries r entries = entries.map (respeltEntry r) := by
  induction entries with
  | nil => rfl
  | cons entry rest ih => rw [respeltEntries, ih, List.map_cons, respeltEntry]

theorem steady_items_iff (items : List Node) :
    SteadyItems r items ↔ ∀ item ∈ items, item.Steady r := by
  induction items with
  | nil => simp [SteadyItems]
  | cons item rest ih => simp only [SteadyItems, ih, List.forall_mem_cons]

theorem steady_entries_iff (entries : List (Node × Node)) :
    SteadyEntries r entries ↔ ∀ entry ∈ entries, SteadyEntry r entry := by
  induction entries with
  | nil => simp [SteadyEntries]
  | cons entry rest ih => simp only [SteadyEntries, ih, List.forall_mem_cons, SteadyEntry]

theorem distinct_of_distinct {read rest : Mapping} (distinct : Mapping.Distinct (read ++ rest)) :
    distinct? read rest = some (read ++ rest) := by
  induction rest generalizing read with
  | nil => rw [distinct?, List.append_nil]
  | cons entry rest ih =>
      obtain ⟨key, body⟩ := entry
      have absent : Mapping.contains read key = false := by
        refine List.any_eq_false.2 fun earlier member => ?_
        have apart := (List.pairwise_append.1 distinct).2.2 earlier member (key, body) (by simp)
        simp only [apart, Bool.false_eq_true, not_false_eq_true]
      have moved : read ++ (key, body) :: rest = (read ++ [(key, body)]) ++ rest := by simp
      rw [distinct?, absent, moved]
      exact ih (moved ▸ distinct)

theorem distinct_eq_some_iff {read entries : Mapping} :
    distinct? [] read = some entries ↔ entries = read ∧ Mapping.Distinct read := by
  constructor
  · intro passed
    obtain ⟨same, distinct⟩ := of_distinct [] read passed List.Pairwise.nil
    rw [List.nil_append] at same
    exact ⟨same, same ▸ distinct⟩
  · rintro ⟨rfl, distinct⟩
    exact distinct_of_distinct distinct

/-- A run that gives a result exactly when that is good, and then this result and count. -/
def Yields {α : Type} (run : Option (α × Nat)) (result : α) (count : Nat) (good : Prop) : Prop :=
  ∀ result' count', run = some (result', count') ↔ (result' = result ∧ count' = count) ∧ good

namespace Yields

variable {α β : Type} {m : Expanding α} {f : α → Expanding β} {start middle final : Nat} {a : α} {b : β}
  {good good' : Prop}

theorem bind (first : Yields (m start) a middle good) (next : Yields (f a middle) b final good') :
    Yields ((m >>= f) start) b final (good ∧ good') := by
  intro result count
  have unfolded : (m >>= f) start = (m start).bind fun read => f read.1 read.2 := rfl
  rw [unfolded, Option.bind_eq_some_iff]
  constructor
  · rintro ⟨⟨a', middle'⟩, run, further⟩
    obtain ⟨⟨rfl, rfl⟩, fine⟩ := (first _ _).1 run
    obtain ⟨same, fine'⟩ := (next _ _).1 further
    exact ⟨same, fine, fine'⟩
  · rintro ⟨same, fine, fine'⟩
    exact ⟨(a, middle), (first _ _).2 ⟨⟨rfl, rfl⟩, fine⟩, (next _ _).2 ⟨same, fine'⟩⟩

theorem of_eq {run : Option (α × Nat)} (same : run = some (a, final)) (fine : good) :
    Yields run a final good := by
  intro result count
  rw [same, Option.some.injEq, Prod.mk.injEq]
  exact ⟨fun same => ⟨⟨same.1.symm, same.2.symm⟩, fine⟩, fun same => ⟨same.1.1.symm, same.1.2.symm⟩⟩

theorem congr {run : Option (α × Nat)} (yields : Yields run a final good) (iff : good ↔ good') :
    Yields run a final good' :=
  fun result count => (yields result count).trans (and_congr_right fun _ => iff)

theorem map_m {γ δ : Type} {step : α → Expanding β} {step' : γ → Expanding δ} {change : α → γ}
    {change' : β → δ} {fine : β → Prop} (items : List α)
    (each : ∀ item ∈ items, ∀ count count' result, step item count = some (result, count') →
      Yields (step' (change item) count) (change' result) count' (fine result))
    {count count' : Nat} {results : List β} (run : items.mapM step count = some (results, count')) :
    Yields ((items.map change).mapM step' count) (results.map change') count'
      (∀ result ∈ results, fine result) := by
  induction items generalizing count results with
  | nil =>
      rw [List.mapM_nil] at run
      cases run
      exact .of_eq (by rw [List.map_nil, List.mapM_nil]; rfl) (by simp)
  | cons item rest ih =>
      rw [List.mapM_cons] at run
      obtain ⟨⟨first, between⟩, head, run⟩ := Option.bind_eq_some_iff.1 run
      obtain ⟨⟨others, final⟩, tail, run⟩ := Option.bind_eq_some_iff.1 run
      cases run
      have here := each item (by simp) _ _ _ head
      have further := ih (fun later member => each later (List.mem_cons_of_mem _ member)) tail
      rw [List.map_cons, List.mapM_cons]
      refine (here.bind (further.bind (.of_eq rfl trivial))).congr ?_
      rw [and_true, List.forall_mem_cons]

end Yields

theorem plain_value_respelt {plain : Bool} {text : String} {result : Value}
    (kept : Scalar.Kept r plain text) (read : plainValue? plain text = some result) :
    plainValue? plain (respeltString r text) = some (result.respelt r) := by
  cases plain with
  | false =>
      cases read
      rfl
  | true =>
      simp only [plainValue?, Bool.not_true, Bool.false_eq_true, if_false] at read ⊢
      rcases kept rfl with same | ⟨meant, meant'⟩
      · rw [same]
        split at read
        case h_4 => contradiction
        case h_5 =>
          cases read
          simp only [*, Value.respelt]
        all_goals
          cases read
          simp only [*, Value.respelt]
      · rw [meant] at read
        cases read
        rw [meant']
        rfl

theorem respelt_with_label (label : Label) (inner : Value) :
    (withLabel label inner).respelt r = withLabel label (inner.respelt r) := by
  cases label <;> rfl

theorem well_keyed_with_label_iff (label : Label) {inner : Value} :
    (withLabel label inner).WellKeyed ↔ inner.WellKeyed := by
  cases label <;> exact Iff.rfl

/-- What the numbers of the anchors stand for, in the text and in the changed text. -/
structure Targets (r : Respelling) (targets targets' : Nat → Option Node) : Prop where
  respelt : ∀ number, targets' number = (targets number).map (Node.respelt r)
  steady : ∀ number, ∀ node ∈ targets number, node.Steady r

section

variable {targets targets' : Nat → Option Node} {limit : Nat}

theorem follow_respelt (related : Targets r targets targets') {node followed : Node}
    {count count' : Nat} (steady : node.Steady r)
    (run : follow targets limit node count = some (followed, count')) :
    followed.Steady r ∧
      follow targets' limit (node.respelt r) count = some (followed.respelt r, count') := by
  cases node with
  | aliasOf number =>
      simp only [follow] at run
      split at run
      · cases run
      · next few =>
          obtain ⟨found, known, same⟩ := Option.map_eq_some_iff.1 run
          cases same
          refine ⟨related.steady number followed known, ?_⟩
          simp only [Node.respelt, follow, if_neg few, related.respelt, known, Option.map_some]
  | _ =>
      cases run
      exact ⟨steady, rfl⟩

theorem yields_scalar {label : Label} {plain : Bool} {text : String} {anchor : Option Nat}
    (steady : (scalar anchor label plain text).Steady r) {count count' : Nat} {result : Value}
    (run : (scalarValue? label plain text).map (·, count) = some (result, count')) :
    Yields ((scalarValue? label plain (respeltString r text)).map (·, count)) (result.respelt r)
      count' (result.respelt r).WellKeyed := by
  obtain ⟨rfl, kept⟩ := steady
  obtain ⟨inner, read, same⟩ := Option.map_eq_some_iff.1 run
  cases same
  have read' := plain_value_respelt kept read
  exact .of_eq (Option.map_eq_some_iff.2 ⟨_, read', rfl⟩) (well_keyed_plain_value read')

/-- What is claimed of the nodes whose collections lie in each other at most so deep. -/
def ValuesFollow (r : Respelling) (targets targets' : Nat → Option Node) (limit depth : Nat) : Prop :=
  ∀ (node : Node) (count count' : Nat) (result : Value), node.Steady r →
    value targets limit depth node count = some (result, count') →
    Yields (value targets' limit depth (node.respelt r) count) (result.respelt r) count'
      (result.respelt r).WellKeyed

theorem yields_items {depth : Nat} (follows : ValuesFollow r targets targets' limit depth)
    {children : List Node} (steady : SteadyItems r children) {count count' : Nat}
    {results : List Value} (row : children.mapM (value targets limit depth) count =
      some (results, count')) :
    Yields ((respeltItems r children).mapM (value targets' limit depth) count)
      (Value.respeltItems r results) count'
      (Value.WellKeyedItems (Value.respeltItems r results)) := by
  have each := (steady_items_iff children).1 steady
  rw [respelt_items_eq, Value.respelt_items_eq]
  refine (Yields.map_m children (fun item member count count' result run =>
    follows item count count' result (each item member) run) row).congr ?_
  rw [Value.well_keyed_items_iff, List.forall_mem_map]

def entryValue (targets : Nat → Option Node) (limit depth : Nat) (entry : Node × Node) :
    Expanding (Value × Value) := do
  let key ← value targets limit depth entry.1
  let body ← value targets limit depth entry.2
  pure (key, body)

theorem yields_entry {depth : Nat} (follows : ValuesFollow r targets targets' limit depth)
    {entry : Node × Node} (steady : SteadyEntry r entry) {count count' : Nat} {result : Value × Value}
    (run : entryValue targets limit depth entry count = some (result, count')) :
    Yields (entryValue targets' limit depth (respeltEntry r entry) count)
      (Prod.map (Value.respelt r) (Value.respelt r) result) count'
      ((result.1.respelt r).WellKeyed ∧ (result.2.respelt r).WellKeyed) := by
  obtain ⟨⟨key, between⟩, keyRun, run⟩ := Option.bind_eq_some_iff.1 run
  obtain ⟨⟨body, after⟩, bodyRun, run⟩ := Option.bind_eq_some_iff.1 run
  cases run
  have key' := follows _ _ _ _ steady.1 keyRun
  have body' := follows _ _ _ _ steady.2 bodyRun
  exact (key'.bind (body'.bind (.of_eq rfl trivial))).congr (by rw [and_true])

theorem yields_entries {depth : Nat} (follows : ValuesFollow r targets targets' limit depth)
    {children : List (Node × Node)} (steady : SteadyEntries r children) {count count' : Nat}
    {results : Mapping} (row : children.mapM (entryValue targets limit depth) count =
      some (results, count')) :
    Yields ((respeltEntries r children).mapM (entryValue targets' limit depth) count)
      (Value.respeltEntries r results) count'
      (Value.WellKeyedEntries (Value.respeltEntries r results)) := by
  have each := (steady_entries_iff children).1 steady
  rw [respelt_entries_eq, Value.respelt_entries_eq]
  refine (Yields.map_m children (fun entry member count count' result run =>
    yields_entry follows (each entry member) run) row).congr ?_
  rw [Value.well_keyed_entries_iff, List.forall_mem_map]
  rfl

theorem yields_mapping_value (label : Label) (read : Mapping) (count : Nat) :
    Yields (mappingValue label (Value.respeltEntries r read) count)
      (withLabel label (.mapping (Value.respeltEntries r read))) count
      (Mapping.Distinct (Value.respeltEntries r read)) := by
  intro result count'
  rw [mappingValue, Option.map_eq_some_iff]
  constructor
  · rintro ⟨entries, passed, same⟩
    obtain ⟨rfl, distinct⟩ := distinct_eq_some_iff.1 passed
    cases same
    exact ⟨⟨rfl, rfl⟩, distinct⟩
  · rintro ⟨⟨rfl, rfl⟩, distinct⟩
    exact ⟨_, distinct_eq_some_iff.2 ⟨rfl, distinct⟩, rfl⟩

/-- The changed node has the changed value, if no mapping in that repeats a key. -/
theorem values_follow (related : Targets r targets targets') (depth : Nat) :
    ValuesFollow r targets targets' limit depth := by
  intro node count count' result steady run
  induction depth generalizing node count count' result with
  | zero =>
      rw [value] at run ⊢
      obtain ⟨⟨followed, middle⟩, first, run⟩ := Option.bind_eq_some_iff.1 run
      obtain ⟨steady, first'⟩ := follow_respelt related steady first
      refine (Yields.bind (.of_eq first' trivial) ?_).congr (by rw [true_and])
      cases followed with
      | scalar anchor label plain text => exact yields_scalar steady run
      | sequence => simp at run
      | mapping => simp at run
      | aliasOf => simp at run
  | succ depth ih =>
      rw [value] at run ⊢
      obtain ⟨⟨followed, middle⟩, first, run⟩ := Option.bind_eq_some_iff.1 run
      obtain ⟨steady, first'⟩ := follow_respelt related steady first
      refine (Yields.bind (.of_eq first' trivial) ?_).congr (by rw [true_and])
      cases followed with
      | scalar anchor label plain text => exact yields_scalar steady run
      | sequence anchor label children =>
          obtain ⟨⟨values, last⟩, row, run⟩ := Option.bind_eq_some_iff.1 run
          cases run
          rw [respelt_with_label, Value.respelt, well_keyed_with_label_iff]
          exact ((yields_items ih steady row).bind (.of_eq rfl trivial)).congr (by rw [and_true]; rfl)
      | mapping anchor label children =>
          obtain ⟨⟨read, last⟩, row, run⟩ := Option.bind_eq_some_iff.1 run
          obtain ⟨entries, passed, same⟩ := Option.map_eq_some_iff.1 run
          cases same
          obtain ⟨rfl, distinct⟩ := distinct_eq_some_iff.1 passed
          rw [respelt_with_label, Value.respelt, well_keyed_with_label_iff]
          exact ((yields_entries ih steady row).bind (yields_mapping_value label entries _)).congr and_comm
      | aliasOf => simp at run

end

def respeltNumbered (r : Respelling) (numbered : Nat × Node) : Nat × Node :=
  (numbered.1, numbered.2.respelt r)

mutual

theorem anchored_respelt : (node : Node) →
    (node.respelt r).anchored = node.anchored.map (respeltNumbered r)
  | aliasOf _ => rfl
  | scalar anchor _ _ _ => by cases anchor <;> rfl
  | sequence anchor label items => by
      have inner := anchored_items_respelt items
      cases anchor <;> simp [respelt, anchored, anchor?, respeltNumbered, inner]
  | mapping anchor label entries => by
      have inner := anchored_entries_respelt entries
      cases anchor <;> simp [respelt, anchored, anchor?, respeltNumbered, inner]

theorem anchored_items_respelt : (items : List Node) →
    anchoredItems (respeltItems r items) = (anchoredItems items).map (respeltNumbered r)
  | [] => rfl
  | item :: rest => by
      rw [respeltItems, anchoredItems, anchored_respelt item, anchored_items_respelt rest,
        anchoredItems, List.map_append]

theorem anchored_entries_respelt : (entries : List (Node × Node)) →
    anchoredEntries (respeltEntries r entries) = (anchoredEntries entries).map (respeltNumbered r)
  | [] => rfl
  | (key, value) :: rest => by
      rw [respeltEntries, anchoredEntries, anchored_respelt key, anchored_respelt value,
        anchored_entries_respelt rest, anchoredEntries, List.map_append, List.map_append]

end

mutual

theorem size_respelt : (node : Node) → (node.respelt r).size = node.size
  | aliasOf _ => rfl
  | scalar _ _ _ _ => rfl
  | sequence _ _ items => congrArg (2 + ·) (size_items_respelt items)
  | mapping _ _ entries => congrArg (2 + ·) (size_entries_respelt entries)

theorem size_items_respelt : (items : List Node) → sizeItems (respeltItems r items) = sizeItems items
  | [] => rfl
  | item :: rest => by
      rw [respeltItems, sizeItems, size_respelt item, size_items_respelt rest, sizeItems]

theorem size_entries_respelt : (entries : List (Node × Node)) →
    sizeEntries (respeltEntries r entries) = sizeEntries entries
  | [] => rfl
  | (key, value) :: rest => by
      rw [respeltEntries, sizeEntries, size_respelt key, size_respelt value,
        size_entries_respelt rest, sizeEntries]

end

mutual

theorem steady_of_anchored : (node : Node) → node.Steady r →
    ∀ numbered ∈ node.anchored, numbered.2.Steady r
  | aliasOf _, _ => by simp [anchored, anchor?]
  | scalar anchor _ _ _, steady => by
      cases anchor <;> simp [anchored, anchor?]
      exact steady
  | sequence anchor _ items, steady => by
      rw [anchored]
      refine List.forall_mem_append.2 ⟨?_, steady_of_anchored_items items steady⟩
      cases anchor with
      | none => simp [anchor?]
      | some number => simpa [anchor?] using steady
  | mapping anchor _ entries, steady => by
      rw [anchored]
      refine List.forall_mem_append.2 ⟨?_, steady_of_anchored_entries entries steady⟩
      cases anchor with
      | none => simp [anchor?]
      | some number => simpa [anchor?] using steady

theorem steady_of_anchored_items : (items : List Node) → SteadyItems r items →
    ∀ numbered ∈ anchoredItems items, numbered.2.Steady r
  | [], _ => by simp [anchoredItems]
  | item :: rest, steady => by
      rw [anchoredItems]
      exact List.forall_mem_append.2
        ⟨steady_of_anchored item steady.1, steady_of_anchored_items rest steady.2⟩

theorem steady_of_anchored_entries : (entries : List (Node × Node)) → SteadyEntries r entries →
    ∀ numbered ∈ anchoredEntries entries, numbered.2.Steady r
  | [], _ => by simp [anchoredEntries]
  | (key, value) :: rest, steady => by
      rw [anchoredEntries]
      exact List.forall_mem_append.2 ⟨List.forall_mem_append.2
        ⟨steady_of_anchored key steady.1.1, steady_of_anchored value steady.1.2⟩,
        steady_of_anchored_entries rest steady.2⟩

end

end Node

namespace Document

theorem targets_respelt {root : Node} (steady : root.Steady r) :
    Node.Targets r (target? root.anchored.reverse) (target? (root.respelt r).anchored.reverse) := by
  refine ⟨fun number => ?_, fun number node found => ?_⟩
  · rw [Node.anchored_respelt, ← List.map_reverse, target?, List.find?_map, Option.map_map, target?,
      Option.map_map]
    rfl
  · obtain ⟨numbered, first, rfl⟩ := Option.map_eq_some_iff.1 found
    exact Node.steady_of_anchored root steady numbered
      (List.mem_reverse.1 (List.mem_of_find?_eq_some first))

theorem value_respelt {d : Document} {v w : Value} (steady : d.Steady r) (read : d.value? = some v) :
    (d.respelt r).value? = some w ↔ w = v.respelt r ∧ (v.respelt r).WellKeyed := by
  obtain ⟨_ | root⟩ := d
  · cases read
    simp only [respelt, value?, Option.map_none, Option.some.injEq]
    exact ⟨fun same => ⟨same.symm, trivial⟩, fun same => same.1.symm⟩
  · obtain ⟨⟨result, count⟩, run, same⟩ := Option.map_eq_some_iff.1 read
    cases same
    have follows := Node.values_follow (targets_respelt (steady root rfl)) depthLimit root 0 count _
      (steady root rfl) run
    rw [← Node.size_respelt (r := r) root] at follows
    refine Option.map_eq_some_iff.trans ?_
    constructor
    · rintro ⟨⟨result', count'⟩, run', rfl⟩
      obtain ⟨⟨rfl, _⟩, wellKeyed⟩ := (follows result' count').1 run'
      exact ⟨rfl, wellKeyed⟩
    · rintro ⟨rfl, wellKeyed⟩
      exact ⟨_, (follows _ _).2 ⟨⟨rfl, rfl⟩, wellKeyed⟩, rfl⟩

end Document

end MessageSchema.Yaml
