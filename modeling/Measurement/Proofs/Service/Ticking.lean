/-
What a run that counts periods reports.

The run writes a row, sleeps for a period and goes on from the next tick. A step
appends one row (`Rows.addRow`), so by induction on the times at which it is
looked at, the run has one row more than it has slept through (`Counts.look`), and
the result tells the instants of the ticks and numbers them (`Reports`).

A row is appended only below the limit of rows, and only to columns for a time and
a number. Neither is asked for before the run begins. So a run that sleeps too
often fails, and its rows are lost with it; and so does one whose specification
was accepted for names that only read like the columns of the capability
(`ticks_are_reported`).
-/
import Measurement.Service.Activity
import Measurement.Proofs.Statement.Acceptance
import Measurement.Proofs.Statement.Cells
import Measurement.Proofs.Time.Sums

set_option autoImplicit false

namespace Measurement

/-! ## 1. One row -/

/-- Whether a statement has the columns that ticks are written in. -/
def Statement.TakesTicks (s : Statement) : Prop :=
  s.Takes "time" .time ∧ s.Takes "packets" .natural

namespace Ticking

variable {r r' : Result} {n : Nat} {tick : Instant}

theorem addRow_eq_ok_iff :
    addRow r n tick = .ok r' ↔ ∃ mid, r.statement.setCell "time" n (.time tick) = .ok mid
      ∧ mid.setCell "packets" n (.natural (n.toUInt64 + 1)) = .ok r'.statement := by
  simp only [addRow, Result.setRow, List.foldlM_cons, List.foldlM_nil, map_eq_ok_iff,
    bind_eq_ok_iff]
  constructor
  · rintro ⟨t, ⟨mid, hmid, t', ht, hpure⟩, rfl⟩
    cases hpure
    exact ⟨mid, hmid, ht⟩
  · rintro ⟨mid, hmid, ht⟩
    exact ⟨r'.statement, ⟨mid, hmid, r'.statement, ht, rfl⟩, rfl⟩

/-- A row is added exactly if there are columns for it and it lies below the limit. -/
theorem exists_addRow_iff :
    (∃ r', addRow r n tick = .ok r') ↔ r.statement.TakesTicks ∧ n < Column.rowLimit := by
  constructor
  · rintro ⟨r', h⟩
    obtain ⟨mid, hmid, ht⟩ := addRow_eq_ok_iff.1 h
    obtain ⟨htime, hrow⟩ := Statement.exists_setCell_iff.1 ⟨mid, hmid⟩
    obtain ⟨hpackets, -⟩ := Statement.exists_setCell_iff.1 ⟨_, ht⟩
    exact ⟨⟨htime, (Statement.takes_setCell hmid _ _).1 hpackets⟩, hrow⟩
  · rintro ⟨⟨htime, hpackets⟩, hrow⟩
    obtain ⟨mid, hmid⟩ : ∃ mid, r.statement.setCell "time" n (.time tick) = .ok mid :=
      Statement.exists_setCell_iff.2 ⟨htime, hrow⟩
    obtain ⟨t, ht⟩ : ∃ t, mid.setCell "packets" n (.natural (n.toUInt64 + 1)) = .ok t :=
      Statement.exists_setCell_iff.2 ⟨(Statement.takes_setCell hmid _ _).2 hpackets, hrow⟩
    exact ⟨⟨t⟩, addRow_eq_ok_iff.2 ⟨mid, hmid, ht⟩⟩

/-- The first row beyond the limit is refused. -/
theorem addRow_beyond (h : r.statement.TakesTicks) (hrow : Column.rowLimit ≤ n) (tick : Instant) :
    ∃ column, addRow r n tick = .error (.rowOutOfRange column n Column.rowLimit) := by
  obtain ⟨column, herror⟩ := Statement.setCell_beyond (v := .time tick) h.1 hrow
  refine ⟨column, ?_⟩
  rw [addRow, Result.setRow, List.foldlM_cons, herror]
  rfl

/-- The instant of a tick, if the calendar reaches to it. -/
def tickAt (start : Instant) (period : Span) (i : Nat) : Option Instant :=
  start.add? ⟨i * period.nanos⟩

/-- The result of a specification with the rows of the first ticks. -/
structure Rows (s : Specification) (start : Instant) (period : Span) (n : Nat) (r : Result) :
    Prop where
  rest : { r.statement with columns := (Result.ofSpecification s).statement.columns }
    = (Result.ofSpecification s).statement
  takes : r.statement.TakesTicks
  names : r.statement.columns.names = s.statement.columns.names
  others : ∀ name, name ≠ "time" → name ≠ "packets" → r.statement.columns.get? name
    = (s.statement.columns.get? name).map Column.cleared
  time : ∃ c, r.statement.columns.get? "time" = some c
    ∧ c.Shows n fun i => (tickAt start period i).map .time
  packets : ∃ c, r.statement.columns.get? "packets" = some c
    ∧ c.Shows n fun i => some (.natural (i.toUInt64 + 1))

section

variable {s : Specification} {start : Instant} {period : Span}

theorem columns_ofSpecification (s : Specification) (name : String) :
    (Result.ofSpecification s).statement.columns.get? name
      = (s.statement.columns.get? name).map Column.cleared := Table.get?_map _ _ _

theorem takesTicks_ofSpecification :
    (Result.ofSpecification s).statement.TakesTicks ↔ s.statement.TakesTicks := by
  have htakes : ∀ name p, (Result.ofSpecification s).statement.Takes name p
      ↔ s.statement.Takes name p := by
    intro name p
    simp only [Statement.Takes, columns_ofSpecification, Option.map_eq_some_iff]
    constructor
    · rintro ⟨-, ⟨c, hc, rfl⟩, hp⟩
      exact ⟨c, hc, hp⟩
    · rintro ⟨c, hc, hp⟩
      exact ⟨c.cleared, ⟨c, hc, rfl⟩, hp⟩
  exact and_congr (htakes _ _) (htakes _ _)

/-- Before the first row there is none. -/
theorem rows_ofSpecification (h : s.statement.TakesTicks) (start : Instant) (period : Span) :
    Rows s start period 0 (.ofSpecification s) := by
  have hcolumns := columns_ofSpecification s
  have htakes := takesTicks_ofSpecification.2 h
  obtain ⟨⟨c, hc, -⟩, d, hd, -⟩ := h
  refine ⟨rfl, htakes, Table.names_map _ _, fun name _ _ => hcolumns name, ⟨c.cleared, ?_, ?_⟩,
    ⟨d.cleared, ?_, ?_⟩⟩
  · rw [hcolumns, hc]
    rfl
  · exact c.shows_cleared _
  · rw [hcolumns, hd]
    rfl
  · exact d.shows_cleared _

/-- One step: the row of a tick goes behind those before it. -/
theorem Rows.addRow (h : Rows s start period n r) (htick : tickAt start period n = some tick)
    (hadd : addRow r n tick = .ok r') : Rows s start period (n + 1) r' := by
  obtain ⟨mid, hmid, ht⟩ := addRow_eq_ok_iff.1 hadd
  obtain ⟨hrest, hnames, hothers, c, c', hc, hc', hset⟩ := Statement.setCell_spec hmid
  obtain ⟨hrest', hnames', hlater, d, d', hd, hd', hset'⟩ := Statement.setCell_spec ht
  obtain ⟨a, ha, htime⟩ := h.time
  obtain ⟨b, hb, hpackets⟩ := h.packets
  have hac : a = c := Option.some.inj (ha.symm.trans hc)
  have hbd : b = d := by
    rw [hothers "packets" (by decide), hb] at hd
    exact Option.some.inj hd
  subst hac hbd
  have htakes : ∀ name p, r'.statement.Takes name p ↔ r.statement.Takes name p := fun name p =>
    (Statement.takes_setCell ht name p).trans (Statement.takes_setCell hmid name p)
  constructor
  case rest => rw [← h.rest, ← hrest, ← hrest']
  case takes => exact ⟨(htakes _ _).2 h.takes.1, (htakes _ _).2 h.takes.2⟩
  case names => rw [hnames', hnames, h.names]
  case others =>
    intro name hname hname'
    rw [hlater name hname', hothers name hname, h.others name hname hname']
  case time =>
    refine ⟨c', ?_, htime.set hset ?_⟩
    · rw [hlater "time" (by decide), hc']
    · rw [htick]
      rfl
  case packets => exact ⟨d', hd', hpackets.set hset' rfl⟩

/-- The columns of the ticks are the longest. -/
theorem Rows.rowCount_eq (h : Rows s start period n r) : r.statement.rowCount = n := by
  obtain ⟨a, ha, htime⟩ := h.time
  obtain ⟨b, hb, hpackets⟩ := h.packets
  apply Nat.le_antisymm
  · rw [Statement.rowCount_le_iff]
    intro c hc
    obtain ⟨⟨name, c⟩, he, rfl⟩ := List.mem_map.1 hc
    have hget := Table.get?_of_mem he
    simp only at hget ⊢
    by_cases hname : name = "time"
    · rw [hname, ha, Option.some.injEq] at hget
      rw [← hget, htime.size]
    · by_cases hname' : name = "packets"
      · rw [hname', hb, Option.some.injEq] at hget
        rw [← hget, hpackets.size]
      · rw [h.others name hname hname', Option.map_eq_some_iff] at hget
        obtain ⟨d, -, rfl⟩ := hget
        exact Nat.zero_le n
  · have hmem : a ∈ r.statement.columns.values :=
      List.mem_map_of_mem (f := (·.2)) (Table.mem_of_get? ha)
    have hle := Statement.rowCount_le_iff.1 (Nat.le_refl r.statement.rowCount) a hmem
    rwa [htime.size] at hle

end

/-! ## 2. The run -/

/-- The period of a run is positive. -/
theorem periodOf_pos (scope : Scope) : 0 < (periodOf scope).nanos := by
  rw [periodOf]
  cases scope.period? with
  | none => decide
  | some p =>
    by_cases hp : Span.zero < p
    · simp only [if_pos hp]
      exact hp
    · simp only [if_neg hp]
      decide

/-- The calendar reaches to the ticks before one that it reaches to. -/
theorem exists_tickAt_of_le {scope : Scope} {start latest : Instant} {i n : Nat} (h : i ≤ n)
    (hlatest : tickAt start (periodOf scope) n = some latest) :
    ∃ tick, tickAt start (periodOf scope) i = some tick := by
  have hpositive := Int.le_of_lt (periodOf_pos scope)
  refine Instant.exists_add?_of_le ?_ ?_ hlatest
  · exact Int.mul_nonneg (Int.natCast_nonneg i) hpositive
  · refine Int.mul_le_mul_of_nonneg_right ?_ hpositive
    omega

theorem lt_momentAfter (m : Nat) {period : Span} (h : 0 < period.nanos) :
    m < momentAfter m period := by
  rw [momentAfter]
  simp only [nanosPerMilli]
  omega

/-- The number of sleeps that are over when a run is looked at at some moments, the first of them
being over at a given one. -/
def sleeps (period : Span) : Nat → List Reading → Nat
  | _, [] => 0
  | due, now :: rest =>
    if due ≤ now.moment then sleeps period (momentAfter now.moment period) rest + 1
    else sleeps period due rest

/-- A run that has begun and has slept a number of times. -/
structure Counts (s : Specification) (start : Instant) (n : Nat) (t : Ticking) : Prop where
  rows : t.rows = n + 1
  started : t.started = start
  period : t.period = periodOf s.scope
  latest : tickAt start (periodOf s.scope) n = some t.latest
  result : Rows s start (periodOf s.scope) (n + 1) t.result

variable {s : Specification} {start : Instant} {t : Ticking}

/-- A tick and a period are the next tick. -/
theorem Counts.add?_latest (h : Counts s start n t) :
    t.latest.add? t.period = tickAt start (periodOf s.scope) (n + 1) := by
  have hpositive := periodOf_pos s.scope
  have hpassed : (0 : Int) ≤ n * (periodOf s.scope).nanos :=
    Int.mul_nonneg (Int.natCast_nonneg n) (Int.le_of_lt hpositive)
  rw [h.period, Instant.add?_add? hpassed (Int.le_of_lt hpositive) h.latest, tickAt,
    Int.natCast_succ, Int.add_mul, Int.one_mul]

/-- One more sleep: there is one more row, or the limit of rows is reached and all of them are
lost. -/
theorem Counts.nextTick (h : Counts s start n t) (m : Nat)
    (htick : tickAt start (periodOf s.scope) (n + 1) = some tick) :
    (n + 1 < Column.rowLimit → ∃ t', Activity.nextTick t m = .ticking t'
        ∧ t'.due = momentAfter m t.period ∧ Counts s start (n + 1) t')
      ∧ (n + 1 = Column.rowLimit → ∃ column, Activity.nextTick t m = .finished
        (.error (.invalid (.rowOutOfRange column Column.rowLimit Column.rowLimit)))) := by
  have hsum : t.latest.add? t.period = some tick := h.add?_latest.trans htick
  constructor
  · intro hrow
    obtain ⟨r, hr⟩ : ∃ r, Ticking.addRow t.result (n + 1) tick = .ok r :=
      exists_addRow_iff.2 ⟨h.result.takes, hrow⟩
    have hadd : Ticking.addRow t.result t.rows tick = .ok r := by rw [h.rows, hr]
    refine ⟨{ t with
      result := r, latest := tick, rows := t.rows + 1, due := momentAfter m t.period }, ?_, rfl, ?_⟩
    · simp only [Activity.nextTick, hsum, hadd]
    · refine ⟨?_, h.started, h.period, htick, h.result.addRow htick hr⟩
      simp only [h.rows]
  · intro hrow
    obtain ⟨column, herror⟩ := addRow_beyond h.result.takes (Nat.le_of_eq hrow.symm) tick
    refine ⟨column, ?_⟩
    rw [hrow] at herror
    simp only [Activity.nextTick, hsum, h.rows, hrow, herror]

end Ticking

namespace Activity

open Ticking

variable {s : Specification} {start latest : Instant} {t : Ticking} {n : Nat}

/-- What becomes of the run of a tick that is looked at at some moments and not interrupted. -/
def lookedAt (a : Activity) (looks : List Reading) : Activity :=
  looks.foldl (fun a now => a.goOn .tick false now) a

theorem lookedAt_finished (outcome : Outcome) (looks : List Reading) :
    (finished outcome).lookedAt looks = finished outcome := by
  induction looks with
  | nil => rfl
  | cons now looks ih => exact ih

/-- A run that has slept a number of times and is looked at at some moments has slept as many times
more as sleeps are over, unless the limit of rows is reached by then. -/
theorem lookedAt_ticking (h : Counts s start n t) (hn : n < Column.rowLimit) (looks : List Reading)
    (hinside : tickAt start (periodOf s.scope) (n + sleeps t.period t.due looks) = some latest) :
    (n + sleeps t.period t.due looks < Column.rowLimit →
        ∃ t', (ticking t).lookedAt looks = .ticking t'
          ∧ Counts s start (n + sleeps t.period t.due looks) t')
      ∧ (Column.rowLimit ≤ n + sleeps t.period t.due looks →
        ∃ column, (ticking t).lookedAt looks = .finished
          (.error (.invalid (.rowOutOfRange column Column.rowLimit Column.rowLimit)))) := by
  induction looks generalizing n t with
  | nil => exact ⟨fun _ => ⟨t, rfl, h⟩, fun hover => absurd hn (Nat.not_lt.2 hover)⟩
  | cons now looks ih =>
    rw [sleeps] at hinside ⊢
    by_cases hdue : t.due ≤ now.moment
    · rw [if_pos hdue, ← Nat.add_assoc, Nat.add_right_comm] at hinside ⊢
      -- The tick after this sleep is not later than the last one, so the calendar reaches to it.
      obtain ⟨tick, htick⟩ : ∃ tick, tickAt start (periodOf s.scope) (n + 1) = some tick :=
        exists_tickAt_of_le (by omega) hinside
      have hstep : (ticking t).lookedAt (now :: looks)
          = (nextTick t now.moment).lookedAt looks := by
        show lookedAt (wake now.moment (ticking t)) looks = _
        rw [wake, if_pos hdue]
      obtain ⟨hmore, hfull⟩ := h.nextTick now.moment htick
      by_cases hrow : n + 1 < Column.rowLimit
      · obtain ⟨t', ht', hdue', hcounts⟩ := hmore hrow
        have hperiod : t'.period = t.period := hcounts.period.trans h.period.symm
        rw [hstep, ht']
        have hrest := ih hcounts hrow
        rw [hdue', hperiod] at hrest
        exact hrest hinside
      · obtain ⟨column, herror⟩ := hfull (by omega)
        rw [hstep, herror, lookedAt_finished]
        exact ⟨fun hbelow => (by omega), fun _ => ⟨column, rfl⟩⟩
    · rw [if_neg hdue] at hinside ⊢
      have hstep : (ticking t).lookedAt (now :: looks) = (ticking t).lookedAt looks := by
        show lookedAt (wake now.moment (ticking t)) looks = _
        rw [wake, if_neg hdue]
      rw [hstep]
      exact ih h hn hinside

end Activity

namespace Specification

variable {s : Specification} {start latest : Instant} {n : Nat} {r : Result}

/-! ## 3. What is reported -/

/-- When a run begins that is looked at at some moments and then interrupted. -/
def begun (looks : List Reading) (last : Reading) : Reading := looks.headD last

/-- The number of sleeps that are over by then. -/
def slept (s : Specification) : List Reading → Nat
  | [] => 0
  | now :: rest =>
    Ticking.sleeps (Ticking.periodOf s.scope)
      (momentAfter now.moment (Ticking.periodOf s.scope)) rest

/-- The run of a tick that is looked at at some moments and then interrupted. -/
def countedUntil (s : Specification) (looks : List Reading) (last : Reading) : Activity :=
  ((Activity.handed s).lookedAt looks).goOn .tick true last

/-- Whether a result has a row for each of a number of ticks, the first of them at one instant and
the last of them at another one. -/
structure Reports (s : Specification) (start latest : Instant) (n : Nat) (r : Result) : Prop where
  rest : { r.statement with
      columns := (Result.ofSpecification s).statement.columns
      scope := s.scope } = (Result.ofSpecification s).statement
  scope : r.statement.scope = .range (.fixed start) (.fixed latest)
  columns : r.statement.columns.names = s.statement.columns.names
  rowCount : r.statement.rowCount = n
  time : ∀ i < n, ∃ u, start.add? ⟨i * (Ticking.periodOf s.scope).nanos⟩ = some u
    ∧ r.statement.cell? "time" i = some (.time u)
  packets : ∀ i < n, ∃ k : UInt64, r.statement.cell? "packets" i = some (.natural k)
    ∧ k.toNat = i + 1

/-- Ticks are numbered from one, and below the limit of rows no number is too large. -/
theorem toNat_number {i : Nat} (h : i < Column.rowLimit) : (i.toUInt64 + 1).toNat = i + 1 := by
  have hlimit : Column.rowLimit = 1048576 := by decide
  rw [UInt64.toNat_add, Nat.toUInt64, UInt64.toNat_ofNat']
  simp
  omega

/-- The rows of the first ticks, as a table of the last of them. -/
theorem reports_of_rows (h : Ticking.Rows s start (Ticking.periodOf s.scope) n r)
    (hn : n ≤ Column.rowLimit)
    (hlatest : ∀ i < n, ∃ u, Ticking.tickAt start (Ticking.periodOf s.scope) i = some u) :
    s.Reports start latest n (r.withScope (.range (.fixed start) (.fixed latest))) := by
  obtain ⟨a, ha, htime⟩ := h.time
  obtain ⟨b, hb, hpackets⟩ := h.packets
  refine ⟨?_, rfl, h.names, ?_, fun i hi => ?_, fun i hi => ?_⟩
  · exact congrArg (fun t : Statement => { t with scope := s.scope }) h.rest
  · exact h.rowCount_eq
  · obtain ⟨u, hu⟩ := hlatest i hi
    refine ⟨u, hu, ?_⟩
    show (r.statement.columns.get? "time").bind (fun c => c.get? i) = _
    rw [ha, Option.bind_some, htime.cells i hi, hu]
    rfl
  · refine ⟨i.toUInt64 + 1, ?_, toNat_number (Nat.lt_of_lt_of_le hi hn)⟩
    show (r.statement.columns.get? "packets").bind (fun c => c.get? i) = _
    rw [hb, Option.bind_some, hpackets.cells i hi]

/-! ## 4. What is accepted -/

variable {registry : Registry} {label : String} {c : Capability}

theorem tickCapability_spec (h : Service.tickCapability registry label = .ok c) :
    c.statement.registry = registry ∧ c.statement.parameters = .empty
      ∧ c.statement.columns.names = ["time", "packets"] := by
  simp only [Service.tickCapability, bind_eq_ok_iff, Statement.addColumn_eq_ok_iff] at h
  obtain ⟨t, ⟨e, -, rfl⟩, u, ⟨e', -, rfl⟩, heq⟩ := h
  cases heq
  exact ⟨rfl, rfl, rfl⟩

/-- Where the schema of a request has one reading, and the registry has a time and a number under
the names of the columns, the request is accepted only if it has these columns. -/
theorem takesTicks_of_accepts (hc : Service.tickCapability registry label = .ok c)
    (haccepts : c.accepts s = .ok ())
    (hs : Statement.Reachable (· = registry) (fun _ => True) s.statement)
    (hlegible : s.statement.LegibleSchema)
    (hfree : Digest.CollisionFree [s.statement.schemaLines, c.statement.schemaLines])
    (htime : ∀ e, registry.element "time" = .ok e → e.primitive = .time)
    (hpackets : ∀ e, registry.element "packets" = .ok e → e.primitive = .natural) :
    s.statement.TakesTicks := by
  obtain ⟨hregistry, hplaced⟩ := Statement.placed_of_reachable hs
  obtain ⟨hsame, hparameters, hcolumns⟩ := tickCapability_spec hc
  have hlegible' : c.statement.LegibleSchema := by
    refine ⟨?_, fun name hname => ?_, fun name hname => ?_, ?_, ?_⟩
    · rw [hsame, ← hregistry]
      exact hlegible.registry
    · rw [hparameters] at hname
      cases hname
    · rw [hcolumns] at hname
      revert name
      decide
    · rw [hparameters]
      decide
    · rw [hcolumns]
      decide
  obtain ⟨hdigest, -⟩ := Capability.accepts_eq_ok_iff.1 haccepts
  have htext := hfree _ List.mem_cons_self _ (List.mem_cons_of_mem _ List.mem_cons_self) hdigest
  have hnames := (Statement.sameSchema_of_linesText hlegible hlegible' htext).columns
  rw [hcolumns] at hnames
  -- A column stands under its name with the element that the registry has under it.
  have htakes : ∀ name p, name ∈ s.statement.columns.names →
      (∀ e, registry.element name = .ok e → e.primitive = p) → s.statement.Takes name p := by
    intro name p hname hp
    obtain ⟨column, hcolumn⟩ := Table.mem_names_iff.1 hname
    have helement := hplaced.columns (name, column) (Table.mem_of_get? hcolumn)
    rw [hregistry] at helement
    exact ⟨column, hcolumn, hp _ helement⟩
  exact ⟨htakes "time" .time (hnames.mem_iff.2 (by decide)) htime,
    htakes "packets" .natural (hnames.mem_iff.2 (by decide)) hpackets⟩

/-! ## 5. The run of an accepted request -/

/-- The first row is written when the run begins. -/
theorem start_tick (h : s.statement.TakesTicks) (now : Reading) :
    ∃ t, Activity.start .tick s now = .ticking t
      ∧ t.due = momentAfter now.moment (Ticking.periodOf s.scope)
      ∧ Ticking.Counts s now.wall 0 t := by
  have hstart : Ticking.tickAt now.wall (Ticking.periodOf s.scope) 0 = some now.wall := by
    rw [Ticking.tickAt, Int.natCast_zero, Int.zero_mul]
    exact now.wall.add?_zero
  have hrows := Ticking.rows_ofSpecification h now.wall (Ticking.periodOf s.scope)
  obtain ⟨r, hr⟩ : ∃ r, Ticking.addRow (.ofSpecification s) 0 now.wall = .ok r :=
    Ticking.exists_addRow_iff.2 ⟨hrows.takes, by decide⟩
  refine ⟨⟨r, now.wall, now.wall, 1, Ticking.periodOf s.scope,
    momentAfter now.moment (Ticking.periodOf s.scope)⟩, ?_, rfl, ?_⟩
  · simp only [Activity.start, Activity.startTicking, hr]
  · exact ⟨rfl, rfl, rfl, hstart, hrows.addRow hstart hr⟩

/-- A run without columns for its rows fails when it begins. -/
theorem start_tick_error (h : ¬ s.statement.TakesTicks) (now : Reading) :
    ∃ fault, Activity.start .tick s now = .finished (.error (.invalid fault)) := by
  cases hr : Ticking.addRow (.ofSpecification s) 0 now.wall with
  | error fault => exact ⟨fault, by simp only [Activity.start, Activity.startTicking, hr]⟩
  | ok r =>
    obtain ⟨htakes, -⟩ := Ticking.exists_addRow_iff.1 ⟨r, hr⟩
    exact absurd (Ticking.takesTicks_ofSpecification.1 htakes) h

/-- When it is interrupted, a run with columns for its rows ends with one more than it has slept, or
it has failed at the limit of rows. -/
theorem countedUntil_of_takesTicks (h : s.statement.TakesTicks) (looks : List Reading)
    (last : Reading)
    (hinside : Ticking.tickAt (begun looks last).wall (Ticking.periodOf s.scope) (s.slept looks)
      = some latest) :
    (s.slept looks < Column.rowLimit → ∃ t, s.countedUntil looks last = .finished (.ok t.finish)
        ∧ Ticking.Counts s (begun looks last).wall (s.slept looks) t)
      ∧ (Column.rowLimit ≤ s.slept looks → ∃ column, s.countedUntil looks last = .finished
        (.error (.invalid (.rowOutOfRange column Column.rowLimit Column.rowLimit)))) := by
  cases looks with
  | nil =>
    obtain ⟨t, ht, -, hcounts⟩ := start_tick h last
    have hroom : ¬ Column.rowLimit ≤ 0 := by decide
    refine ⟨fun _ => ⟨t, ?_, hcounts⟩, fun hover => absurd hover hroom⟩
    show (Activity.start .tick s last).interrupted = _
    rw [ht]
    rfl
  | cons now rest =>
    obtain ⟨t, ht, hdue, hcounts⟩ := start_tick h now
    -- The first sleep is not over when it begins.
    have hasleep : (Activity.handed s).lookedAt (now :: rest)
        = (Activity.ticking t).lookedAt rest := by
      show ((Activity.start .tick s now).wake now.moment).lookedAt rest = _
      have hlater : ¬ t.due ≤ now.moment := by
        rw [hdue, Nat.not_le]
        exact Ticking.lt_momentAfter _ (Ticking.periodOf_pos s.scope)
      rw [ht, Activity.wake, if_neg hlater]
    have hslept : s.slept (now :: rest) = Ticking.sleeps t.period t.due rest := by
      rw [slept, hcounts.period, hdue]
    have hreached : Ticking.tickAt now.wall (Ticking.periodOf s.scope)
        (0 + Ticking.sleeps t.period t.due rest) = some latest := by
      rw [Nat.zero_add, ← hslept]
      exact hinside
    obtain ⟨hmore, hfull⟩ := Activity.lookedAt_ticking hcounts (by decide) rest hreached
    rw [Nat.zero_add, ← hslept] at hmore hfull
    refine ⟨fun hbelow => ?_, fun hover => ?_⟩
    · obtain ⟨t', ht', hcounts'⟩ := hmore hbelow
      refine ⟨t', ?_, hcounts'⟩
      rw [countedUntil, hasleep, ht']
      rfl
    · obtain ⟨column, herror⟩ := hfull hover
      refine ⟨column, ?_⟩
      rw [countedUntil, hasleep, herror]
      rfl

/-- Without columns for its rows, it has failed at once. -/
theorem countedUntil_of_not_takesTicks (h : ¬ s.statement.TakesTicks) (looks : List Reading)
    (last : Reading) :
    ∃ fault, s.countedUntil looks last = .finished (.error (.invalid fault)) := by
  cases looks with
  | nil =>
    obtain ⟨fault, herror⟩ := start_tick_error h last
    refine ⟨fault, ?_⟩
    show (Activity.start .tick s last).interrupted = _
    rw [herror]
    rfl
  | cons now rest =>
    obtain ⟨fault, herror⟩ := start_tick_error h now
    refine ⟨fault, ?_⟩
    show ((((Activity.start .tick s now).wake now.moment).lookedAt rest).goOn .tick true last) = _
    rw [herror]
    exact congrArg (·.goOn .tick true last) (Activity.lookedAt_finished _ rest)

/-- The run of an accepted request that has slept a number of times when it is interrupted ends. It
has a result exactly if the request has the columns of the capability and the limit of rows is not
reached by then, and the result has a row for each tick. Otherwise all rows are lost. The columns
are there if the schema of the request has only one reading. -/
theorem ticks_are_reported (hc : Service.tickCapability registry label = .ok c)
    (haccepts : c.accepts s = .ok ()) (looks : List Reading) (last : Reading)
    (hinside : (begun looks last).wall.add?
      ⟨s.slept looks * (Ticking.periodOf s.scope).nanos⟩ = some latest) :
    ∃ outcome, s.countedUntil looks last = .finished outcome
      ∧ ((∃ r, outcome = .ok r) ↔ s.statement.TakesTicks ∧ s.slept looks < Column.rowLimit)
      ∧ (∀ r, outcome = .ok r → s.Reports (begun looks last).wall latest (s.slept looks + 1) r)
      ∧ (∀ e, outcome = .error e → ∃ fault, e = .invalid fault
        ∧ (s.statement.TakesTicks →
          ∃ column, fault = .rowOutOfRange column Column.rowLimit Column.rowLimit))
      ∧ (Statement.Reachable (· = registry) (fun _ => True) s.statement →
        s.statement.LegibleSchema →
        Digest.CollisionFree [s.statement.schemaLines, c.statement.schemaLines] →
        (∀ e, registry.element "time" = .ok e → e.primitive = .time) →
        (∀ e, registry.element "packets" = .ok e → e.primitive = .natural) →
          s.statement.TakesTicks) := by
  have hcolumns := takesTicks_of_accepts hc haccepts
  by_cases htakes : s.statement.TakesTicks
  · obtain ⟨hmore, hfull⟩ := countedUntil_of_takesTicks htakes looks last hinside
    by_cases hbelow : s.slept looks < Column.rowLimit
    · obtain ⟨t, hrun, hcounts⟩ := hmore hbelow
      refine ⟨.ok t.finish, hrun, iff_of_true ⟨_, rfl⟩ ⟨htakes, hbelow⟩, fun r hr => ?_,
        fun e he => (by cases he), hcolumns⟩
      obtain rfl := Except.ok.inj hr
      have hlatest : t.latest = latest := Option.some.inj (hcounts.latest.symm.trans hinside)
      rw [Ticking.finish, hcounts.started, hlatest]
      refine reports_of_rows hcounts.result hbelow fun i hi => ?_
      exact Ticking.exists_tickAt_of_le (Nat.le_of_lt_succ hi) hinside
    · obtain ⟨column, hrun⟩ := hfull (Nat.not_lt.1 hbelow)
      refine ⟨_, hrun, iff_of_false ?_ fun h => hbelow h.2, fun r hr => (by cases hr),
        fun e he => ⟨_, (Except.error.inj he).symm, fun _ => ⟨column, rfl⟩⟩, hcolumns⟩
      rintro ⟨r, hr⟩
      cases hr
  · obtain ⟨fault, hrun⟩ := countedUntil_of_not_takesTicks htakes looks last
    refine ⟨_, hrun, iff_of_false ?_ fun h => htakes h.1, fun r hr => (by cases hr),
      fun e he => ⟨fault, (Except.error.inj he).symm, fun h => absurd h htakes⟩, hcolumns⟩
    rintro ⟨r, hr⟩
    cases hr

/-! ## 6. Samples -/

open Statement

/-- A document with a time, a number, and another number under the names of both in a row. -/
def countingDocument : String :=
  "[\"mplane\",\"r\",0,[],[[\"time\",\"time\"],[\"packets\",\"natural\"],[\"packets,time\",\"natural\"]]]"

/-- What the document says. -/
def countingSaid : Registry.Document :=
  ⟨"mplane", "r", 0, [], [⟨"time", "time", none⟩, ⟨"packets", "natural", none⟩,
    ⟨"packets,time", "natural", none⟩]⟩

/-- An element of that document. -/
def counted (name : String) (p : Primitive) : Element := ⟨name, p, none, "r"⟩

/-- The registry of these elements. -/
def counting : Registry :=
  ⟨"r", 0, .ofList ([counted "time" .time, counted "packets" .natural,
    counted "packets,time" .natural].map fun e => (e.name, e))⟩

theorem isLoaded_counting : counting.IsLoaded := by
  have hread : Registry.Document.read countingDocument = .ok countingSaid := by
    have hsaid : (Json.Document.read? countingDocument).bind Registry.Document.ofJson?
        = some countingSaid := by decide +kernel
    rw [Registry.Document.read, hsaid]
    rfl
  refine ⟨.initial, .initial, .none, ⟨counting, Registries.initial.next⟩, rfl,
    Or.inr (Or.inl ⟨countingDocument, ?_⟩)⟩
  rw [Registries.load, hread]
  simp only [Registries.fetchAll, countingSaid]
  rfl

/-- A request for some columns, with a row each second. -/
def everySecond (columns : List Element) : Specification :=
  ⟨{ Statement.make measureVerb counting with
    scope := Scope.nowToFuture.withPeriod (.ofSeconds 1)
    columns := .ofList (columns.map fun e => (e.name, .make e)) }⟩

/-- The request for the columns of the tick. -/
def bothColumns : Specification := everySecond [counted "time" .time, counted "packets" .natural]

/-- The request for the one column whose name is those of both in a row. -/
def joinedColumn : Specification := everySecond [counted "packets,time" .natural]

theorem schemaLines_joinedColumn :
    joinedColumn.statement.schemaLines = bothColumns.statement.schemaLines := by
  have hperm : inOrder ["time", "packets"] = inOrder ["packets", "time"] :=
    inOrder_of_perm (List.Perm.swap _ _ _)
  have hrow : inOrder ["packets,time"] = inOrder ["time", "packets"] := by
    rw [hperm, inOrder_of_pairwise (by decide), inOrder_of_pairwise (by decide)]
    decide
  rw [schemaLines, schemaLines]
  exact congrArg (fun row => ["r:r", "p:" ++ inOrder [], "r:" ++ row]) hrow

/-- The capability of a tick with that registry. -/
def counter : Capability :=
  ⟨{ bothColumns.statement with label := some "tick" }⟩

theorem tickCapability_counting : Service.tickCapability counting "tick" = .ok counter := rfl

/-- Such a request is made by asking for its columns one after the other. -/
theorem reachable_everySecond {loaded : Registry → Prop} (h : loaded counting)
    {columns : List Element} (hmade : (Statement.make measureVerb counting).run
      (.setScope (Scope.nowToFuture.withPeriod (.ofSeconds 1))
        :: columns.map fun e => .addColumn e.name) = (everySecond columns).statement) :
    Reachable loaded (fun _ => True) (everySecond columns).statement := by
  rw [← hmade]
  exact reachable_run (.make measureVerb h) fun _ _ => trivial

theorem reachable_bothColumns : Reachable (· = counting) (fun _ => True) bothColumns.statement :=
  reachable_everySecond (by rfl) rfl

theorem reachable_joinedColumn :
    Reachable Registry.IsLoaded (fun _ => True) joinedColumn.statement :=
  reachable_everySecond isLoaded_counting rfl

theorem accepts_bothColumns : counter.accepts bothColumns = .ok () :=
  Capability.accepts_eq_ok_iff.2 ⟨rfl, rfl, rfl⟩

theorem accepts_joinedColumn : counter.accepts joinedColumn = .ok () :=
  Capability.accepts_eq_ok_iff.2 ⟨congrArg Digest.ofLines schemaLines_joinedColumn, rfl, rfl⟩

theorem takesTicks_bothColumns : bothColumns.statement.TakesTicks :=
  ⟨⟨_, rfl, rfl⟩, _, rfl, rfl⟩

/-- A run that has slept twice, and is then looked at and interrupted during the third sleep, has
three rows. -/
theorem bothColumns_are_filled :
    ∃ r, bothColumns.countedUntil [⟨0, .epoch⟩, ⟨1000, .epoch⟩, ⟨1500, .epoch⟩, ⟨2000, .epoch⟩]
        ⟨2500, .epoch⟩ = .finished (.ok r)
      ∧ r.statement.rowCount = 3 := by
  have hlegible : bothColumns.statement.LegibleSchema := by decide
  have hfree : Digest.CollisionFree [bothColumns.statement.schemaLines,
      counter.statement.schemaLines] := Digest.collisionFree_of_eq rfl
  have hinside : Instant.epoch.add? ⟨2 * (Ticking.periodOf bothColumns.scope).nanos⟩
      = some (.ofParts 0 2 0) := by decide +kernel
  obtain ⟨outcome, hrun, hok, hreports, -, htakes⟩ := ticks_are_reported tickCapability_counting
    accepts_bothColumns [⟨0, .epoch⟩, ⟨1000, .epoch⟩, ⟨1500, .epoch⟩, ⟨2000, .epoch⟩]
    ⟨2500, .epoch⟩ hinside
  have hcolumns := htakes reachable_bothColumns hlegible hfree
    (fun e he => by cases he; rfl) (fun e he => by cases he; rfl)
  obtain ⟨r, rfl⟩ := hok.2 ⟨hcolumns, by decide +kernel⟩
  exact ⟨r, hrun, (hreports r rfl).rowCount⟩

/-- Looks at a run at the end of each sleep. -/
def onTime (period : Span) : Nat → Nat → List Reading
  | _, 0 => []
  | m, n + 1 => ⟨momentAfter m period, .epoch⟩ :: onTime period (momentAfter m period) n

theorem sleeps_onTime (period : Span) (m n : Nat) :
    Ticking.sleeps period (momentAfter m period) (onTime period m n) = n := by
  induction n generalizing m with
  | zero => rfl
  | succ n ih =>
    rw [onTime, Ticking.sleeps, if_pos (Nat.le_refl _), ih]

/-- An accepted request for one column with both names has no column for a time, and its run fails
when it begins. An accepted request for both columns fails when it has slept until the limit of
rows is reached, and none of its rows is reported. -/
theorem accepted_ticks_can_be_lost :
    counting.IsLoaded ∧ Service.tickCapability counting "tick" = .ok counter
      ∧ (Reachable Registry.IsLoaded (fun _ => True) joinedColumn.statement
        ∧ Digest.CollisionFree [joinedColumn.statement.schemaLines, counter.statement.schemaLines]
        ∧ counter.accepts joinedColumn = .ok ()
        ∧ joinedColumn.countedUntil [] ⟨0, .epoch⟩
          = .finished (.error (.invalid (.unknownColumn "time"))))
      ∧ counter.accepts bothColumns = .ok ()
      ∧ ∃ looks last latest column, bothColumns.slept looks = Column.rowLimit
        ∧ Ticking.tickAt (begun looks last).wall (Ticking.periodOf bothColumns.scope)
          Column.rowLimit = some latest
        ∧ bothColumns.countedUntil looks last = .finished
          (.error (.invalid (.rowOutOfRange column Column.rowLimit Column.rowLimit))) := by
  refine ⟨isLoaded_counting, tickCapability_counting, ⟨reachable_joinedColumn,
    Digest.collisionFree_of_eq schemaLines_joinedColumn, accepts_joinedColumn, rfl⟩,
    accepts_bothColumns, ?_⟩
  let looks : List Reading :=
    ⟨0, .epoch⟩ :: onTime (Ticking.periodOf bothColumns.scope) 0 Column.rowLimit
  have hslept : bothColumns.slept looks = Column.rowLimit := sleeps_onTime _ _ _
  have hinside : Ticking.tickAt Instant.epoch (Ticking.periodOf bothColumns.scope) Column.rowLimit
      = some (.ofParts 12 11776 0) := by decide +kernel
  obtain ⟨-, hfull⟩ := countedUntil_of_takesTicks takesTicks_bothColumns looks ⟨0, .epoch⟩
    (by rw [hslept]; exact hinside)
  obtain ⟨column, hrun⟩ := hfull (Nat.le_of_eq hslept.symm)
  exact ⟨looks, ⟨0, .epoch⟩, _, column, hslept, hinside, hrun⟩

end Specification

end Measurement
