/-
The written form of a message is a normal form.

What is written for a message that was read is read as that message, with every
statement given its token and with times cut down to microseconds, and written
again it is what it was. Nothing is lost from a message whose statements had
tokens and whose times had no part below a microsecond.

The rows of a result are read one after the other. After `n` of them each column
holds the first `n` cells of the column that was written (`Column.upTo`), so all
of them give the column back. Contents of envelopes come back as they are nested.
-/
import Measurement.Proofs.Message.Written

set_option autoImplicit false

namespace Measurement

open Measurement.Text

/-! ## 1. Rows -/

namespace Column

/-- The first rows of a column, with their times cut down to microseconds. -/
def upTo (c : Column) (n : Nat) : Column := ⟨c.element, c.toMicros.cells.extract 0 n⟩

theorem upTo_zero (c : Column) : c.upTo 0 = c.cleared := by
  rw [upTo, cleared, Array.extract_zero]

theorem upTo_size (c : Column) : c.upTo c.size = c.toMicros := by
  have hsize : c.size = c.toMicros.cells.size := c.size_toMicros.symm
  rw [upTo, hsize, Array.extract_size]
  rfl

theorem push_upTo {c : Column} {n : Nat} (h : n < c.size) :
    (c.upTo n).push ((c.get? n).map Value.toMicros) = c.upTo (n + 1) := by
  have hsize : n < c.toMicros.cells.size := by
    have hs := c.size_toMicros
    rw [size] at hs
    omega
  have hcell : (c.get? n).map Value.toMicros = c.toMicros.cells[n] := by
    rw [← get?_toMicros, get?, Array.getElem?_eq_getElem hsize]
    rfl
  rw [push, upTo, upTo, hcell, Array.extract_succ_right (Nat.succ_pos n) hsize]

end Column

namespace Statement

/-- All columns of a statement that was read have as many rows as the statement. -/
theorem size_eq_rowCount {s : Statement} {n : Nat} (h : ∀ e ∈ s.columns.entries, e.2.size = n) :
    ∀ c ∈ s.columns.values, c.size = s.rowCount := by
  have hmax : ∀ (cs : List Column) (m : Nat), (∀ c ∈ cs, c.size = n) → cs ≠ [] → m ≤ n →
      cs.foldl (fun k c => max k c.size) m = n := by
    intro cs
    induction cs with
    | nil => exact fun m _ hnil => absurd rfl hnil
    | cons c cs ih =>
      intro m hsizes _ hm
      rw [List.forall_mem_cons] at hsizes
      rw [List.foldl_cons, hsizes.1, Nat.max_eq_right hm]
      by_cases hcs : cs = []
      · rw [hcs, List.foldl_nil]
      · exact ih n hsizes.2 hcs (Nat.le_refl n)
  have hsizes : ∀ c ∈ s.columns.values, c.size = n := by
    intro c hc
    obtain ⟨e, he, rfl⟩ := List.mem_map.1 hc
    exact h e he
  intro c hc
  rw [rowCount, hmax _ 0 hsizes (List.ne_nil_of_mem hc) (Nat.zero_le n)]
  exact hsizes c hc

end Statement

namespace Message

section

variable {cs : List Column}

/-- Whether a column comes back cell by cell. -/
def CellsReadBack (c : Column) : Prop := c.IsRead ∧ ∀ v, some v ∈ c.cells → v.ReadsBack

/-- A row adds the next cell to each column. -/
theorem pushCells_row {n : Nat} (hsize : ∀ c ∈ cs, n < c.size) (hread : ∀ c ∈ cs, CellsReadBack c) :
    pushCells (cs.map fun c => c.upTo n)
      (cs.map fun c => .text (Value.textOrAbsent (c.get? n)))
        = .ok (cs.map fun c => c.upTo (n + 1)) := by
  induction cs with
  | nil => rfl
  | cons c cs ih =>
    rw [List.forall_mem_cons] at hsize hread
    have hn : n < c.cells.size := hsize.1
    have hcell : c.cells[n] ∈ c.cells := Array.getElem_mem hn
    have hget : c.get? n = c.cells[n] := by
      rw [Column.get?, Array.getElem?_eq_getElem hn]
      rfl
    obtain ⟨text, htext⟩ := hread.1.1 _ hcell
    rw [← hget] at htext hcell
    have hvalue := Value.readOptional_textOrAbsent htext fun v hv =>
      hread.1.2 v (Option.mem_def.1 hv ▸ hcell)
    have hprimitive : (c.upTo n).primitive = c.primitive := rfl
    simp only [List.map_cons, pushCells, scalarText, hprimitive, hvalue, ih hsize.2 hread.2, bind,
      Except.bind, Column.push_upTo hsize.1]

/-- The rows that are left add all cells that are left. -/
theorem pushRows_rows {size : Nat} (hsize : ∀ c ∈ cs, c.size = size)
    (hread : ∀ c ∈ cs, CellsReadBack c) (left done number : Nat) (h : done + left = size) :
    pushRows number (cs.map fun c => c.upTo done)
      ((List.range' done left).map fun n =>
        .array (cs.map fun c => .text (Value.textOrAbsent (c.get? n))))
        = .ok (cs.map fun c => c.upTo size) := by
  induction left generalizing done number with
  | zero =>
    rw [Nat.add_zero] at h
    rw [h]
    rfl
  | succ left ih =>
    have hlength : (cs.map fun c => Json.text (Value.textOrAbsent (c.get? done))).length
        = (cs.map fun c => c.upTo done).length := by
      rw [List.length_map, List.length_map]
    have hrow := pushCells_row (fun c hc => (by rw [hsize c hc]; omega)) hread (n := done)
    rw [List.range'_succ, List.map_cons, pushRows, if_pos hlength, hrow]
    exact ih (done + 1) (number + 1) (by omega)

end

/-- The rows that are written give the columns back. -/
theorem readRows_writtenRows {s : Statement} {kind : MessageKind} {n : Nat} {ms : Members}
    (h : s.IsRead kind n) (hback : ∀ v ∈ s.values, v.ReadsBack)
    (hrows : Json.member? "resultvalues" ms = some s.writtenRows) :
    readRows { s.settled with columns := s.columns.map Column.cleared } ms = .ok s.settled := by
  have hsize := Statement.size_eq_rowCount h.sizes
  have hread : ∀ c ∈ s.columns.values, CellsReadBack c := by
    intro c hc
    refine ⟨?_, fun v hv => hback v (Statement.mem_values_of_column hc hv)⟩
    obtain ⟨e, he, rfl⟩ := List.mem_map.1 hc
    exact (h.columns e he).2
  have hcleared : (s.columns.map Column.cleared).values
      = s.columns.values.map fun c => c.upTo 0 := by
    rw [Table.values_map]
    exact List.map_congr_left fun c _ => c.upTo_zero.symm
  have hpush := pushRows_rows hsize hread s.rowCount 0 0 (Nat.zero_add _)
  rw [← List.range_eq_range'] at hpush
  have hrowsJson : s.writtenRows = .array ((List.range s.rowCount).map fun n =>
      .array (s.columns.values.map fun c => .text (Value.textOrAbsent (c.get? n)))) := by
    rw [Statement.writtenRows]
    simp only [Statement.row, List.map_map]
    rfl
  have hcolumns : (s.columns.map Column.cleared).withValues
      (s.columns.values.map fun c => c.upTo s.rowCount) = s.columns.map Column.toMicros := by
    rw [Table.withValues_map]
    refine Table.map_congr fun c hc => ?_
    rw [← hsize c hc, Column.upTo_size]
  rw [readRows, hrows, hrowsJson]
  simp only [hcleared, hpush, Except.map, hcolumns]
  rfl

/-- Without rows, columns are what they are when they are added. -/
theorem cleared_eq_settled {s : Statement} {kind : MessageKind} (h : s.IsRead kind 0) :
    { s.settled with columns := s.columns.map Column.cleared } = s.settled := by
  have hcolumns : s.columns.map Column.cleared = s.columns.map Column.toMicros := by
    refine Table.map_congr fun c hc => ?_
    obtain ⟨e, he, rfl⟩ := List.mem_map.1 hc
    rw [← Column.upTo_zero, ← h.sizes e he, Column.upTo_size]
  rw [hcolumns]
  rfl

/-! ## 2. Kinds -/

/-- A message whose other members have names of parts is of the kind that its first member names. -/
theorem kindOf?_of_names {ms : Members} {kind : MessageKind} {names : List String}
    (hnames : ms.map (·.1) = kind.name :: names) (hparts : names ⊆ partNames) :
    kindOf? ms = some kind := by
  have hinjective : ∀ k : MessageKind, k.name = kind.name → k = kind := by
    intro k
    cases k <;> cases kind <;> decide
  have htest : (fun k : MessageKind => (Json.member? k.name ms).isSome) = fun k => k == kind := by
    funext k
    have hsome : (Json.member? k.name ms).isSome = true ↔ k.name ∈ ms.map (·.1) := by
      rw [Option.isSome_iff_ne_none, Json.member?, ne_eq, entryUnder?_eq_none_iff, not_not]
    rw [Bool.eq_iff_iff, hsome, beq_iff_eq, hnames, List.mem_cons]
    refine ⟨fun hmem => ?_, fun he => Or.inl (congrArg MessageKind.name he)⟩
    exact hmem.elim (hinjective k) fun h => absurd (hparts h) (name_not_mem_partNames k)
  rw [kindOf?, htest]
  cases kind <;> decide

theorem checkVersion_written {ms : Members}
    (h : Json.member? "version" ms = some (.natural messageVersion)) :
    checkVersion ms = .ok () := by
  rw [checkVersion, h]
  rfl

theorem ofMembers_written {lookup : RegistryLookup} {ms : Members} (kind : MessageKind)
    {contents : Except Fault (List Message)} {names : List String}
    (hnames : ms.map (·.1) = kind.name :: names) (hparts : names ⊆ partNames)
    (hversion : Json.member? "version" ms = some (.natural messageVersion)) :
    ofMembers lookup ms contents = readKind lookup ms contents kind := by
  rw [ofMembers, kindOf?_of_names hnames hparts]
  simp only [checkVersion_written hversion]
  rfl

/-- Behind its first member a written statement has members with names of parts. -/
theorem names_members (s : Statement) (kind : MessageKind) (parameter : Parameter → String) :
    ∃ names, (s.members kind parameter).map (·.1) = kind.name :: names ∧ names ⊆ partNames := by
  have hoptional : ∀ {name : String} (o : Option String), name ∈ partNames →
      (Statement.optionalMember name o).map (·.1) ⊆ partNames := by
    intro name o hname
    cases o with
    | none => exact List.nil_subset _
    | some s => exact List.cons_subset.2 ⟨hname, List.nil_subset _⟩
  refine ⟨["version", "registry"] ++ (Statement.optionalMember "label" s.label).map (·.1)
    ++ (Statement.optionalMember "link" s.link).map (·.1)
    ++ (Statement.optionalMember "export" s.exportUri).map (·.1)
    ++ ["token", "when", "parameters", "metadata", "results"], ?_, ?_⟩
  · simp only [Statement.members, List.map_append]
    rfl
  · simp only [List.append_subset]
    exact ⟨⟨⟨⟨by decide, hoptional s.label (by decide)⟩, hoptional s.link (by decide)⟩,
      hoptional s.exportUri (by decide)⟩, by decide⟩

/-! ## 3. Messages as they come back -/

mutual

/-- The message as it comes back from its written form. -/
def settled : Message → Message
  | capability c => capability ⟨c.statement.settled⟩
  | specification s => specification ⟨s.statement.settled⟩
  | result r => result ⟨r.statement.settled⟩
  | receipt r => receipt ⟨r.statement.settled⟩
  | withdrawal w => withdrawal ⟨w.statement.settled⟩
  | redemption r => redemption r
  | interrupt i => interrupt i
  | exception e => exception e
  | envelope kind contents => envelope kind (allSettled contents)

/-- Messages as they come back from their written forms. -/
def allSettled : List Message → List Message
  | [] => []
  | m :: ms => settled m :: allSettled ms

end

theorem kind_settled (m : Message) : m.settled.kind = m.kind := by
  cases m <;> rfl

mutual

/-- What comes back is written alike. -/
theorem toJson_settled : ∀ m : Message, m.settled.toJson = m.toJson
  | capability c => by rw [settled, toJson, toJson, Statement.offerMembers_settled]
  | specification s => by rw [settled, toJson, toJson, Statement.requestMembers_settled]
  | result r => by
    rw [settled, toJson, toJson, Statement.requestMembers_settled, Statement.writtenRows_settled]
  | receipt r => by rw [settled, toJson, toJson, Statement.requestMembers_settled]
  | withdrawal w => by rw [settled, toJson, toJson, Statement.offerMembers_settled]
  | redemption r => by rw [settled]
  | interrupt i => by rw [settled]
  | exception e => by rw [settled]
  | envelope kind contents => by rw [settled, toJson, toJson, allToJson_allSettled]

theorem allToJson_allSettled : ∀ ms : List Message, allToJson (allSettled ms) = allToJson ms
  | [] => rfl
  | m :: ms => by rw [allSettled, allToJson, allToJson, toJson_settled, allToJson_allSettled]

end

/-- Whether statements have tokens of their own and no times with a part below a microsecond. -/
def AreWhole (ss : List (MessageKind × Statement)) : Prop :=
  ∀ e ∈ ss, e.2.givenToken.isSome = true ∧ ∀ t ∈ e.2.times, t.nano % 1000 = 0

instance (ss : List (MessageKind × Statement)) : Decidable (AreWhole ss) :=
  inferInstanceAs (Decidable (∀ e ∈ ss, e.2.givenToken.isSome = true
    ∧ ∀ t ∈ e.2.times, t.nano % 1000 = 0))

theorem settled_statement_of_whole {kind : MessageKind} {s : Statement} (h : AreWhole [(kind, s)]) :
    s.settled = s := by
  obtain ⟨htoken, htimes⟩ := h (kind, s) (List.mem_singleton.2 rfl)
  exact Statement.settled_of_whole htoken htimes

mutual

/-- A message whose statements are whole comes back as it is. -/
theorem settled_of_whole : ∀ m : Message, AreWhole m.statements → m.settled = m
  | capability c, h => by rw [settled, settled_statement_of_whole h]
  | specification s, h => by rw [settled, settled_statement_of_whole h]
  | result r, h => by rw [settled, settled_statement_of_whole h]
  | receipt r, h => by rw [settled, settled_statement_of_whole h]
  | withdrawal w, h => by rw [settled, settled_statement_of_whole h]
  | redemption r, _ => by rw [settled]
  | interrupt i, _ => by rw [settled]
  | exception e, _ => by rw [settled]
  | envelope kind contents, h => by
    rw [statements] at h
    rw [settled, allSettled_of_whole contents h]

theorem allSettled_of_whole : ∀ ms : List Message, AreWhole (allStatements ms) → allSettled ms = ms
  | [], _ => rfl
  | m :: ms, h => by
    rw [AreWhole, allStatements, List.forall_mem_append] at h
    rw [allSettled, settled_of_whole m h.1, allSettled_of_whole ms h.2]

end

/-! ## 4. Reading what is written -/

/-- What a statement in a message of a kind needs to come back: it was read, its registry is found
under its URI, no parameter of an offer is a range of strings, and the texts of its values are read
back. -/
structure ComesBack (lookup : RegistryLookup) (kind : MessageKind) (s : Statement) : Prop where
  isRead : ∃ n, s.IsRead kind n ∧ (kind ≠ .result → n = 0)
  registry : lookup s.registry.uri = .ok s.registry
  ranges : kind.offers = true → ∀ p ∈ s.parameters.values, p.primitive = .string →
    p.constraint.isRange = false
  values : ∀ v ∈ s.values, v.ReadsBack

section

variable {lookup : RegistryLookup} {kind : MessageKind} {s : Statement}

/-- The statement of an offer comes back if its ranges of strings are cut where they were put
together. -/
theorem readStatement_offerMembers_of_cutsOnce (hkind : kind.offers = true) (h : s.IsRead kind 0)
    (hregistry : lookup s.registry.uri = .ok s.registry) (hback : ∀ v ∈ s.values, v.ReadsBack)
    (honce : ∀ p ∈ s.parameters.values, p.primitive = .string → p.constraint.CutsOnce) :
    readStatement lookup (s.offerMembers kind) kind addOffered = .ok s.settled := by
  have hshows : Shows (s.offerMembers kind ++ []) s kind fun p => p.constraint.text :=
    shows_members s kind _ rfl rfl rfl
  rw [List.append_nil] at hshows
  rw [readStatement_of_shows hshows h hregistry hback fun t ht =>
    foldlM_addOffered hkind h hback honce ht, cleared_eq_settled h]

theorem readStatement_offerMembers (hkind : kind.offers = true) (h : ComesBack lookup kind s) :
    readStatement lookup (s.offerMembers kind) kind addOffered = .ok s.settled := by
  obtain ⟨n, hread, hn⟩ := h.isRead
  obtain rfl : n = 0 := hn (fun he => by rw [he] at hkind; cases hkind)
  exact readStatement_offerMembers_of_cutsOnce hkind hread h.registry h.values fun p hp hstring =>
    Constraint.cutsOnce_of_isRange_eq_false (h.ranges hkind p hp hstring)

/-- The statement of a request comes back without its rows, whatever is written behind it. -/
theorem readStatement_requestMembers {rest : Members} (hkind : kind.offers = false)
    (h : ComesBack lookup kind s) (hlabel : Json.member? "label" rest = none)
    (hlink : Json.member? "link" rest = none) (hexport : Json.member? "export" rest = none) :
    readStatement lookup (s.requestMembers kind ++ rest) kind addRequested
      = .ok { s.settled with columns := s.columns.map Column.cleared } := by
  obtain ⟨n, hread, -⟩ := h.isRead
  exact readStatement_of_shows (shows_members s kind _ hlabel hlink hexport) hread h.registry
    h.values fun t ht => foldlM_addRequested hkind hread h.values ht

theorem readStatement_request (hoffers : kind.offers = false) (hkind : kind ≠ .result)
    (h : ComesBack lookup kind s) :
    readStatement lookup (s.requestMembers kind) kind addRequested = .ok s.settled := by
  have hread : readStatement lookup (s.requestMembers kind ++ []) kind addRequested = _ :=
    readStatement_requestMembers hoffers h rfl rfl rfl
  obtain ⟨n, hisRead, hn⟩ := h.isRead
  obtain rfl : n = 0 := hn hkind
  rwa [List.append_nil, cleared_eq_settled hisRead] at hread

/-- The members of a written statement are read as a message of its kind. -/
theorem ofMembers_members (lookup : RegistryLookup) (s : Statement) (kind : MessageKind)
    (parameter : Parameter → String) {rest : Members} (contents : Except Fault (List Message))
    (hrest : rest.map (·.1) ⊆ partNames) :
    ofMembers lookup (s.members kind parameter ++ rest) contents
      = readKind lookup (s.members kind parameter ++ rest) contents kind := by
  obtain ⟨names, hnames, hparts⟩ := names_members s kind parameter
  have hversion : Json.member? "version" (s.members kind parameter ++ rest)
      = some (.natural messageVersion) := by
    rw [member?_members (by decide)]
    rfl
  refine ofMembers_written kind ?_ (List.append_subset.2 ⟨hparts, hrest⟩) hversion
  rw [List.map_append, hnames, List.cons_append]

/-- So are they alone. -/
theorem ofJson_members (lookup : RegistryLookup) (s : Statement) (kind : MessageKind)
    (parameter : Parameter → String) :
    ∃ contents, ofJson lookup (.object (s.members kind parameter))
      = readKind lookup (s.members kind parameter) contents kind := by
  refine ⟨contentsOf lookup (s.members kind parameter), ?_⟩
  have h : ∀ contents, ofMembers lookup (s.members kind parameter ++ []) contents
      = readKind lookup (s.members kind parameter ++ []) contents kind := fun contents =>
    ofMembers_members lookup s kind parameter contents (List.nil_subset _)
  rw [ofJson]
  simpa only [List.append_nil] using h _

/-- An offer that comes back is read as a message of its kind, from members that say the statement
as it comes back. -/
theorem ofJson_offerMembers (hkind : kind.offers = true) (h : ComesBack lookup kind s) :
    ∃ ms contents, ofJson lookup (.object (s.offerMembers kind)) = readKind lookup ms contents kind
      ∧ readStatement lookup ms kind addOffered = .ok s.settled := by
  obtain ⟨contents, hjson⟩ := ofJson_members lookup s kind fun p => p.constraint.text
  exact ⟨_, contents, hjson, readStatement_offerMembers hkind h⟩

/-- And a request without rows. -/
theorem ofJson_requestMembers (hoffers : kind.offers = false) (hkind : kind ≠ .result)
    (h : ComesBack lookup kind s) :
    ∃ ms contents, ofJson lookup (.object (s.requestMembers kind))
      = readKind lookup ms contents kind
      ∧ readStatement lookup ms kind addRequested = .ok s.settled := by
  obtain ⟨contents, hjson⟩ := ofJson_members lookup s kind fun p => Value.textOrAbsent p.value
  exact ⟨_, contents, hjson, readStatement_request hoffers hkind h⟩

/-- A written result is read as that result, rows and all. -/
theorem ofJson_result {s : Statement} (h : ComesBack lookup .result s) :
    ofJson lookup (.object (s.requestMembers .result ++ [("resultvalues", s.writtenRows)]))
      = .ok (result ⟨s.settled⟩) := by
  obtain ⟨n, hread, -⟩ := h.isRead
  have hstatement : readStatement lookup
      (s.requestMembers .result ++ [("resultvalues", s.writtenRows)]) .result addRequested = _ :=
    readStatement_requestMembers rfl h rfl rfl rfl
  have hmember : Json.member? "resultvalues"
      (s.requestMembers .result ++ [("resultvalues", s.writtenRows)]) = some s.writtenRows := by
    rw [Statement.requestMembers, member?_members (by decide)]
    simp [member?_append, member?_cons, member?_optionalMember]
  have hrows := readRows_writtenRows hread h.values hmember
  have hname : ["resultvalues"] ⊆ partNames := by decide
  have hparts : [("resultvalues", s.writtenRows)].map (·.1) ⊆ partNames := hname
  rw [ofJson, Statement.requestMembers, ofMembers_members _ _ _ _ _ hparts,
    ← Statement.requestMembers, readKind, hstatement]
  simp only [bind, Except.bind, hrows, Except.mapError]

end

mutual

/-- What is written for a message whose statements come back is read as that message. -/
theorem ofJson_toJson (lookup : RegistryLookup) : ∀ m : Message,
    (∀ e ∈ m.statements, ComesBack lookup e.1 e.2) → ofJson lookup m.toJson = .ok m.settled
  | capability c, h => by
    obtain ⟨ms, contents, hjson, hread⟩ := ofJson_offerMembers rfl (h _ (List.mem_singleton.2 rfl))
    rw [toJson, hjson, readKind, hread]
    rfl
  | withdrawal w, h => by
    obtain ⟨ms, contents, hjson, hread⟩ := ofJson_offerMembers rfl (h _ (List.mem_singleton.2 rfl))
    rw [toJson, hjson, readKind, hread]
    rfl
  | specification s, h => by
    obtain ⟨ms, contents, hjson, hread⟩ := ofJson_requestMembers rfl (fun he => by cases he)
      (h _ (List.mem_singleton.2 rfl))
    rw [toJson, hjson, readKind, hread]
    rfl
  | receipt r, h => by
    obtain ⟨ms, contents, hjson, hread⟩ := ofJson_requestMembers rfl (fun he => by cases he)
      (h _ (List.mem_singleton.2 rfl))
    rw [toJson, hjson, readKind, hread]
    rfl
  | result r, h => by
    have hback := h _ (List.mem_singleton.2 rfl)
    rw [toJson, settled, ofJson_result hback]
  | redemption r, _ => by
    have hparts : ["version", "token"] ⊆ partNames := by decide
    rw [toJson, ofJson, ofMembers_written .redemption rfl hparts rfl]
    rfl
  | interrupt i, _ => by
    have hparts : ["version", "token"] ⊆ partNames := by decide
    rw [toJson, ofJson, ofMembers_written .interrupt rfl hparts rfl]
    rfl
  | exception e, _ => by
    have hparts : ["version", "message"] ⊆ partNames := by decide
    rw [toJson, ofJson, ofMembers_written .exception rfl hparts rfl]
    obtain ⟨_ | token, text⟩ := e <;> rfl
  | envelope kind contents, h => by
    rw [statements] at h
    have hcontents := allOf_allToJson lookup contents h
    have hparts : ["version", "contents"] ⊆ partNames := by decide
    rw [toJson, ofJson, ofMembers_written .envelope rfl hparts rfl]
    have hlist :
        contentsOf lookup [("envelope", .text kind.name), ("version", .natural messageVersion),
        ("contents", .array (allToJson contents))] = .ok (allSettled contents) := by
      rw [← hcontents]
      simp [contentsOf, listOf]
    rw [hlist]
    cases kind <;> rfl

theorem allOf_allToJson (lookup : RegistryLookup) : ∀ ms : List Message,
    (∀ e ∈ allStatements ms, ComesBack lookup e.1 e.2) →
      allOf lookup (allToJson ms) = .ok (allSettled ms)
  | [], _ => rfl
  | m :: ms, h => by
    rw [allStatements, List.forall_mem_append] at h
    rw [allToJson, allOf, ofJson_toJson lookup m h.1, allOf_allToJson lookup ms h.2]
    rfl

end

/-! ## 5. The normal form -/

/-- What is written for a message that was read is a normal form: it is read as a message of the
same kind that is written alike, and as the same message if that had tokens and whole
microseconds. Asked for is that registries are found under their URIs, that no offer has a range of
strings, and that the texts of real numbers and addresses are read back. -/
theorem written_form_is_normal (lookup : RegistryLookup) (j : Json) (m : Message)
    (hm : ofJson lookup j = .ok m)
    (hregistries : ∀ e ∈ m.statements, lookup e.2.registry.uri = .ok e.2.registry)
    (hranges : ∀ e ∈ m.statements, e.1.offers = true → ∀ p ∈ e.2.parameters.values,
      p.primitive = .string → p.constraint.isRange = false)
    (hback : ∀ e ∈ m.statements, ∀ v ∈ e.2.values, v.ReadsBack) :
    ∃ m', ofJson lookup m.toJson = .ok m' ∧ m'.kind = m.kind ∧ m'.toJson = m.toJson
      ∧ (AreWhole m.statements → m' = m) := by
  have hcomesBack : ∀ e ∈ m.statements, ComesBack lookup e.1 e.2 := fun e he =>
    ⟨isRead_ofJson lookup j m hm e he, hregistries e he, hranges e he, hback e he⟩
  exact ⟨m.settled, ofJson_toJson lookup m hcomesBack, kind_settled m, toJson_settled m,
    settled_of_whole m⟩

/-- An envelope with an offer and with a result of two rows, in one of which a cell is absent. -/
def notices (token : Members) (time : String) : Json :=
  let head (kind : MessageKind) : Members :=
    [(kind.name, .text "measure"), ("version", .natural messageVersion)] ++ token
  .object [("envelope", .text "message"), ("version", .natural messageVersion),
    ("contents", .array [
    .object (head .capability ++ [
      ("when", .text "repeat now ... future cron 0 */15 * * * * \x7b now + 5m / 1s \x7d"),
      ("parameters", .object [("destination.ip4", .text "10.0.0.1, 10.0.0.2"),
        ("destination.port", .text "443 ... 80"), ("source.device", .text "a ,b")]),
      ("results", .array [.text "time", .text "rtt.ms"])]),
    .object (head .result ++ [
      ("when", .text (time ++ " + 90s")),
      ("parameters", .object [("destination.ip4", .text "10.0.0.1"),
        ("destination.port", .natural 80), ("source.device", .null)]),
      ("results", .array [.text "time", .text "rtt.ms"]),
      ("resultvalues", .array
        [.array [.text time, .text "0.25"], .array [.text "*", .natural 8]])])])]

/-- Such an envelope comes back as it is, if its statements have a token and its times no part
below a microsecond. -/
theorem notices_come_back :
    ∃ m, ofJson (fun _ => .ok .core) (notices [("token", .text "k")] "2014-12-24 22:18:42.5")
      = .ok m
      ∧ (m.statements.map (·.1) = [.capability, .result]
        ∧ (∀ e ∈ m.statements, e.2.registry = .core)
        ∧ (∀ e ∈ m.statements, e.1.offers = true → ∀ p ∈ e.2.parameters.values,
          p.primitive = .string → p.constraint.isRange = false)
        ∧ (∀ e ∈ m.statements, ∀ v ∈ e.2.values, v.ReadsBack)
        ∧ AreWhole m.statements)
      ∧ ofJson (fun _ => .ok .core) m.toJson = .ok m := by
  have hread : ∃ m, ofJson (fun _ => .ok .core)
      (notices [("token", .text "k")] "2014-12-24 22:18:42.5") = .ok m
        ∧ (m.statements.map (·.1) = [.capability, .result]
          ∧ (∀ e ∈ m.statements, e.2.registry = .core)
          ∧ (∀ e ∈ m.statements, e.1.offers = true → ∀ p ∈ e.2.parameters.values,
            p.primitive = .string → p.constraint.isRange = false)
          ∧ (∀ e ∈ m.statements, ∀ v ∈ e.2.values, v.ReadsBack)
          ∧ AreWhole m.statements) := by
    decide +kernel
  obtain ⟨m, hm, hstatements⟩ := hread
  have ⟨_, hregistry, hranges, hback, hwhole⟩ := hstatements
  obtain ⟨m', hagain, -, -, hsame⟩ := written_form_is_normal (fun _ => .ok .core) _ m hm
    (fun e he => congrArg Except.ok (hregistry e he).symm) hranges hback
  rw [hsame hwhole] at hagain
  exact ⟨m, hm, hstatements, hagain⟩

end Message

end Measurement
