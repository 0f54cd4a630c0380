/-
Crontabs as masks.

A crontab is kept as a word of 64 bits for each field, in which one bit tells whether a
value is admitted. The words are put together from items with a bitwise or (`step_mask`,
`parse_field`), values are looked up in them (`contains`), and they are written from the
front, the runs of consecutive values by two indices that move along the values
(`format_field`). This is done here step by step, beside the lists of values that the
other modules reason with.

A list of values and its mask tell the same, as no value of a field is above 63
(`mask_inj`). Reading gives the masks of what `read` gives and fails where it fails,
with the same fault (`readMasks_eq`); the masks admit the same values, so the search and
the match look the same up in them (`holds_masks`, `matchMasks_masks`); and they are written
like the lists (`writeMasks_masks`), since the two indices walk over the runs that are built
there from the back (`runs_drop`).
-/
import Mathlib.Data.List.Find
import Measurement.Proofs.Crontab.Text

set_option autoImplicit false

namespace Measurement.Crontab

open Measurement.Text Measurement.Time

/-! ## 1. Masks -/

/-- The word with one bit. -/
def bit (v : Nat) : BitVec 64 := 1#64 <<< v

/-- The word with the bits of some values, put in one after the other. -/
def putAll (vs : List Nat) (mask : BitVec 64) : BitVec 64 := vs.foldl (fun m v => m ||| bit v) mask

/-- Every so many values from one to another. -/
def stepped (first last step : Nat) : List Nat :=
  -- One more than fit between the two, and none if they are in the wrong order.
  List.range' first ((last + step - first) / step) step

/-- The mask of every so many values from one to another (`step_mask`). -/
def stepMask (first last step : Nat) : BitVec 64 := putAll (stepped first last (max step 1)) 0#64

/-- The mask of a field that admits everything (`CronField::full_mask`). -/
def fullMask (f : Field) : BitVec 64 := stepMask f.least f.greatest 1

/-- Whether a mask has the bit of a value (`Crontab::contains`). -/
def holds (mask : BitVec 64) (v : Nat) : Bool := decide (v < 64) && mask &&& bit v != 0#64

/-- The mask of what a field admits. -/
def Admitted.mask {f : Field} (a : Admitted f) : BitVec 64 := putAll a.values 0#64

/-- The masks of a crontab, by field. -/
def masks (c : Crontab) (f : Field) : BitVec 64 := (c.field f).mask

/-! ## 2. Reading -/

/-- The mask of a field with one more of its items. -/
def putItem (f : Field) (mask : BitVec 64) (s : List Char) : Except FieldFault (BitVec 64) := do
  let i ← readItem f s
  .ok (mask ||| stepMask i.first i.last i.step)

/-- The mask of a field, item by item (`parse_field`). -/
def readMask (f : Field) (s : List Char) : Except FieldFault (BitVec 64) :=
  (s.splitOnP (· == ',')).foldlM (putItem f) 0#64

/-- The masks with that of one more field, whose fault is named after it. -/
def putField (masks : Field → BitVec 64) (w : Field × List Char) :
    Except Fault (Field → BitVec 64) :=
  ((readMask w.1 w.2).mapError (Fault.field w.1)).map (Function.update masks w.1)

/-- The masks that a text denotes (`Crontab::parse`). -/
def readMasks (s : List Char) : Except ReadFault (Field → BitVec 64) :=
  let found := words s
  Except.mapError (.invalidCrontab (String.ofList s)) <|
    if found.length ≠ Field.all.length then .error (.fieldCount found.length)
    else (Field.all.zip found).foldlM putField fun _ => 0#64

/-- Whether every field admits its component of an instant (`Crontab::matches`). -/
def matchMasks (masks : Field → BitVec 64) (t : Instant) : Bool :=
  Field.all.all fun f => holds (masks f) (component t f)

/-! ## 3. Writing -/

/-- Where the run of consecutive values ends that goes on at an index. -/
def runEnd (values : List Nat) (j : Nat) : Nat :=
  if h : j + 1 < values.length then
    if values[j + 1] = values[j] + 1 then runEnd values (j + 1) else j
  else j
termination_by values.length - j

section

variable {values : List Nat} {j : Nat}

theorem runEnd_of_next (h : j + 1 < values.length) (hnext : values[j + 1] = values[j] + 1) :
    runEnd values j = runEnd values (j + 1) := by
  rw [runEnd, dif_pos h, if_pos hnext]

theorem runEnd_of_gap (h : j + 1 < values.length) (hgap : ¬ values[j + 1] = values[j] + 1) :
    runEnd values j = j := by
  rw [runEnd, dif_pos h, if_neg hgap]

theorem runEnd_of_last (h : ¬ j + 1 < values.length) : runEnd values j = j := by
  rw [runEnd, dif_neg h]

theorem le_runEnd (values : List Nat) (j : Nat) : j ≤ runEnd values j := by
  induction j using runEnd.induct values with
  | case1 j h hnext ih =>
    rw [runEnd_of_next h hnext]
    omega
  | case2 j h hgap => rw [runEnd_of_gap h hgap]
  | case3 j h => rw [runEnd_of_last h]

theorem runEnd_lt (hj : j < values.length) : runEnd values j < values.length := by
  induction j using runEnd.induct values with
  | case1 j h hnext ih =>
    rw [runEnd_of_next h hnext]
    exact ih h
  | case2 j h hgap => rwa [runEnd_of_gap h hgap]
  | case3 j h => rwa [runEnd_of_last h]

end

/-- The texts of the runs from an index on. -/
def runTexts (values : List Nat) (i : Nat) : List (List Char) :=
  if h : i < values.length then
    let j := runEnd values i
    have hj : j < values.length := runEnd_lt h
    have hle : i ≤ j := le_runEnd values i
    (if i < j then decimal values[i] ++ '-' :: decimal values[j] else decimal values[i])
      :: runTexts values (j + 1)
  else []
termination_by values.length - i

/-- The text of a field (`format_field`). -/
def writeMask (f : Field) (mask : BitVec 64) : List Char :=
  if mask = fullMask f then ['*']
  else match (List.range' 2 (f.greatest - f.least - 1)).find? fun n =>
      mask == stepMask f.least f.greatest n with
    | some n => '*' :: '/' :: decimal n
    | none => [','].intercalate (runTexts (f.range.filter fun v => mask &&& bit v != 0#64) 0)

/-- The text of masks. -/
def writeMasks (masks : Field → BitVec 64) : List Char :=
  [' '].intercalate (Field.all.map fun f => writeMask f (masks f))

/-! ## 4. The bits of a mask -/

variable {f : Field}

theorem getLsbD_bit (u v : Nat) : (bit u).getLsbD v = decide (v < 64 ∧ u = v) := by
  have h := BitVec.getLsbD_twoPow (w := 64) u v
  rw [bit, ← BitVec.twoPow, h]
  grind

theorem getLsbD_putAll (vs : List Nat) (mask : BitVec 64) (v : Nat) :
    (putAll vs mask).getLsbD v = (mask.getLsbD v || decide (v < 64 ∧ v ∈ vs)) := by
  induction vs generalizing mask with
  | nil => simp [putAll]
  | cons u vs ih =>
    have hcons : putAll (u :: vs) mask = putAll vs (mask ||| bit u) := rfl
    rw [hcons, ih, BitVec.getLsbD_or, getLsbD_bit]
    grind

theorem mem_stepped {first last step v : Nat} (hpos : 1 ≤ step) :
    v ∈ stepped first last step ↔ (first ≤ v ∧ v ≤ last) ∧ (v - first) % step = 0 := by
  have hcount : ∀ k, k < (last + step - first) / step ↔ first + step * k ≤ last := by
    intro k
    rw [Nat.lt_div_iff_mul_lt hpos, Nat.mul_comm k step]
    omega
  rw [stepped, List.mem_range']
  simp only [hcount]
  constructor
  · rintro ⟨k, hk, rfl⟩
    refine ⟨⟨Nat.le_add_right _ _, hk⟩, ?_⟩
    rw [Nat.add_sub_cancel_left, Nat.mul_mod_right]
  · rintro ⟨⟨hfirst, hlast⟩, hmod⟩
    have hparts := Nat.div_add_mod (v - first) step
    exact ⟨(v - first) / step, by omega, by omega⟩

/-- A value of a field has a bit of its own. -/
theorem lt_of_mem_range {v : Nat} (h : v ∈ f.range) : v < 64 := by
  have hle := (Field.mem_range.1 h).2
  have hgreatest : f.greatest < 64 := by cases f <;> decide
  omega

theorem lt_of_mem_values {a : Admitted f} {v : Nat} (h : v ∈ a.values) : v < 64 :=
  lt_of_mem_range (Admitted.mem_range h)

theorem getLsbD_mask (a : Admitted f) (v : Nat) : a.mask.getLsbD v = decide (v ∈ a.values) := by
  rw [Admitted.mask, getLsbD_putAll, BitVec.getLsbD_zero, Bool.false_or, decide_eq_decide]
  exact ⟨fun h => h.2, fun h => ⟨lt_of_mem_values h, h⟩⟩

/-- A list of values and its mask tell the same. -/
theorem mask_inj {a b : Admitted f} : a.mask = b.mask ↔ a = b := by
  constructor
  · intro h
    apply Admitted.ext_of_mem
    intro v
    have hbit := congrArg (fun m => m.getLsbD v) h
    simpa only [getLsbD_mask, decide_eq_decide] using hbit
  · exact congrArg Admitted.mask

/-- The mask that has the bits of a field is the mask of the field. -/
theorem eq_mask_of_getLsbD {a : Admitted f} {mask : BitVec 64}
    (h : ∀ v, v < 64 → (mask.getLsbD v = true ↔ v ∈ a.values)) : mask = a.mask := by
  apply BitVec.eq_of_getLsbD_eq
  intro v hv
  rw [getLsbD_mask, Bool.eq_iff_iff, decide_eq_true_eq]
  exact h v hv

theorem and_bit_ne_zero {mask : BitVec 64} {v : Nat} (hv : v < 64) :
    (mask &&& bit v != 0#64) = mask.getLsbD v := by
  have hbit : bit v ≠ 0#64 := by
    intro h
    have hself := congrArg (fun m => m.getLsbD v) h
    simp only [getLsbD_bit, BitVec.getLsbD_zero, hv, true_and, decide_true] at hself
    cases hself
  have hand : mask &&& bit v = if mask.getLsbD v then bit v else 0#64 := BitVec.and_twoPow mask v
  rw [hand]
  cases mask.getLsbD v with
  | false => rfl
  | true => simpa using hbit

/-- Looking a value up in a mask and in the list come to the same. -/
theorem holds_mask (a : Admitted f) (v : Nat) : holds a.mask v = decide (v ∈ a.values) := by
  rw [holds]
  by_cases hv : v < 64
  · rw [decide_eq_true hv, Bool.true_and, and_bit_ne_zero hv, getLsbD_mask]
  · have hnot : v ∉ a.values := fun h => hv (lt_of_mem_values h)
    rw [decide_eq_false hv, decide_eq_false hnot, Bool.false_and]

/-- The values of a field that its mask holds are those of the list (`Crontab::values`). -/
theorem filter_holds (a : Admitted f) : f.range.filter (holds a.mask) = a.values := by
  conv_rhs => rw [a.ordered]
  apply List.filter_congr
  intro v _
  exact holds_mask a v

/-- They are found without a look at their size as well, since all of them are below 64. -/
theorem filter_mask (a : Admitted f) :
    (f.range.filter fun v => a.mask &&& bit v != 0#64) = a.values := by
  conv_rhs => rw [← filter_holds]
  apply List.filter_congr
  intro v hv
  rw [holds, decide_eq_true (lt_of_mem_range hv), Bool.true_and]

/-- Two crontabs with the same masks are equal. -/
theorem masks_inj {c d : Crontab} : c.masks = d.masks ↔ c = d := by
  constructor
  · intro h
    apply eq_of_field
    intro f
    exact mask_inj.1 (congrFun h f)
  · exact congrArg masks

theorem holds_masks (c : Crontab) (f : Field) (v : Nat) : holds (c.masks f) v = c.admits f v := by
  rw [masks, holds_mask, values_field, admits]

theorem matchMasks_masks (c : Crontab) (t : Instant) : matchMasks c.masks t = c.matchesAt t := by
  unfold matchMasks matchesAt
  simp only [holds_masks]

/-! ## 5. Masks that are read -/

theorem getLsbD_stepMask {first last step v : Nat} (hpos : 1 ≤ step) (hv : v < 64) :
    (stepMask first last step).getLsbD v = Item.admits ⟨first, last, step⟩ v := by
  rw [stepMask, getLsbD_putAll, Nat.max_eq_left hpos, BitVec.getLsbD_zero, Bool.false_or,
    Bool.eq_iff_iff, decide_eq_true_eq, mem_stepped hpos, Item.admits, Bool.and_eq_true,
    decide_eq_true_eq, beq_iff_eq]
  exact and_iff_right hv

/-- An item that is read has a step and admits values of its field only. -/
theorem of_readItem {s : List Char} {i : Item} (h : readItem f s = .ok i) :
    1 ≤ i.step ∧ ∀ v, i.admits v = true → v ∈ f.range := by
  obtain ⟨t, ht, rfl⟩ := readItem_eq_ok_iff.1 h
  constructor
  · have hstep : ∀ (r : Stretch) (n : Nat), (r.item f n).step = n := by
      intro r n
      cases r <;> rfl
    rw [Term.item, hstep]
    cases ht with
    | plain => exact Nat.le_refl 1
    | stepped _ _ hpos => exact hpos
  · intro v hv
    exact Field.mem_range.2 (Term.mem_range_of_admits ht ((Term.admits_item ht v).1 hv))

/-- The items of a field are read one by one, up to the first that is wrong. -/
theorem foldlM_putItem (texts : List (List Char)) (mask : BitVec 64) :
    texts.foldlM (putItem f) mask
      = (texts.mapM (readItem f)).map
          fun is => is.foldl (fun m i => m ||| stepMask i.first i.last i.step) mask := by
  induction texts generalizing mask with
  | nil => rfl
  | cons s texts ih =>
    rw [List.foldlM_cons, List.mapM_cons, putItem]
    cases readItem f s with
    | error e => rfl
    | ok i =>
      rw [ok_bind, ok_bind, ok_bind, ih]
      cases texts.mapM (readItem f) <;> rfl

theorem getLsbD_foldl_stepMask {is : List Item} (hpos : ∀ i ∈ is, 1 ≤ i.step) (mask : BitVec 64)
    {v : Nat} (hv : v < 64) :
    (is.foldl (fun m i => m ||| stepMask i.first i.last i.step) mask).getLsbD v
      = (mask.getLsbD v || is.any fun i => i.admits v) := by
  induction is generalizing mask with
  | nil => exact (Bool.or_false _).symm
  | cons i is ih =>
    rw [List.forall_mem_cons] at hpos
    rw [List.foldl_cons, ih hpos.2, BitVec.getLsbD_or, getLsbD_stepMask hpos.1 hv, List.any_cons,
      Bool.or_assoc]

/-- Read item by item, a field gives the mask of what `readField` gives, or the fault. -/
theorem readMask_eq (f : Field) (s : List Char) :
    readMask f s = (readField f s).map Admitted.mask := by
  rw [readMask, foldlM_putItem, readField]
  cases hitems : (s.splitOnP (· == ',')).mapM (readItem f) with
  | error e => rfl
  | ok is =>
    have hread : ∀ i ∈ is, 1 ≤ i.step ∧ ∀ v, i.admits v = true → v ∈ f.range := by
      intro i hi
      obtain ⟨w, -, hw⟩ := (mem_of_mapM_eq_ok hitems).2 i hi
      exact of_readItem hw
    rw [ok_bind]
    -- Bit by bit, the items put in what they admit, and they admit nothing beyond the field.
    refine congrArg Except.ok (eq_mask_of_getLsbD fun v hv => ?_)
    rw [getLsbD_foldl_stepMask (fun i hi => (hread i hi).1) _ hv, BitVec.getLsbD_zero,
      Bool.false_or, Admitted.mem_select, ← Field.mem_range]
    constructor
    · intro h
      obtain ⟨i, hi, hadmits⟩ := List.any_eq_true.1 h
      exact ⟨(hread i hi).2 v hadmits, h⟩
    · exact fun h => h.2

theorem putField_eq (ms : Field → BitVec 64) (f : Field) (w : List Char) :
    putField ms (f, w)
      = (readNamedField f w).map fun a => Function.update ms f a.mask := by
  rw [putField, readMask_eq, readNamedField]
  cases readField f w <;> rfl

theorem foldlM_putField (w₁ w₂ w₃ w₄ w₅ w₆ : List Char) :
    (Field.all.zip [w₁, w₂, w₃, w₄, w₅, w₆]).foldlM putField (fun _ => 0#64)
      = (ofWords [w₁, w₂, w₃, w₄, w₅, w₆]).map masks := by
  simp only [Field.all, List.zip_cons_cons, List.zip_nil_left, List.foldlM_cons, List.foldlM_nil,
    putField_eq, ofWords]
  cases readNamedField .seconds w₁ with
  | error e => rfl
  | ok a₁ =>
  cases readNamedField .minutes w₂ with
  | error e => rfl
  | ok a₂ =>
  cases readNamedField .hours w₃ with
  | error e => rfl
  | ok a₃ =>
  cases readNamedField .days w₄ with
  | error e => rfl
  | ok a₄ =>
  cases readNamedField .weekdays w₅ with
  | error e => rfl
  | ok a₅ =>
  cases readNamedField .months w₆ with
  | error e => rfl
  | ok a₆ =>
    refine congrArg Except.ok (funext fun f => ?_)
    cases f <;> rfl

/-- Reading a text gives the masks of the crontab that `read` gives, or the same fault. -/
theorem readMasks_eq (s : List Char) : readMasks s = (read s).map masks := by
  have hwords : ∀ ws : List (List Char),
      (if ws.length ≠ Field.all.length then .error (.fieldCount ws.length)
        else (Field.all.zip ws).foldlM putField fun _ => 0#64) = (ofWords ws).map masks := by
    intro ws
    by_cases hlength : ws.length = Field.all.length
    · match ws, hlength with
      | [w₁, w₂, w₃, w₄, w₅, w₆], hsix =>
        rw [if_neg (not_not.2 hsix)]
        exact foldlM_putField w₁ w₂ w₃ w₄ w₅ w₆
    · rw [if_pos hlength]
      unfold ofWords
      split
      · exact absurd rfl hlength
      · rfl
  unfold readMasks read
  simp only [hwords]
  cases ofWords (words s) <;> rfl

/-! ## 6. Masks that are written -/

theorem mask_eq_stepMask_iff {a : Admitted f} {n : Nat} (hn : 1 ≤ n) :
    a.mask = stepMask f.least f.greatest n ↔ a.values = everyNth f n := by
  have hstep : stepMask f.least f.greatest n
      = (Admitted.select f fun v => (v - f.least) % n == 0).mask := by
    refine eq_mask_of_getLsbD fun v hv => ?_
    rw [getLsbD_stepMask hn hv, Admitted.mem_select, Item.admits, Bool.and_eq_true,
      decide_eq_true_eq]
  rw [hstep, mask_inj]
  constructor
  · rintro rfl
    rfl
  · intro h
    apply Admitted.ext_of_mem
    intro v
    rw [h]
    rfl

theorem everyNth_one (f : Field) : everyNth f 1 = f.range := by
  rw [everyNth, List.filter_eq_self]
  intro v _
  rw [Nat.mod_one]
  rfl

theorem runs_cons_head (v : Nat) (vs : List Nat) : ∃ b more, runs (v :: vs) = (v, b) :: more := by
  rw [runs]
  split
  · exact ⟨v, [], rfl⟩
  · split
    · exact ⟨_, _, rfl⟩
    · exact ⟨v, _, rfl⟩

/-- From an index on, the first run ends where the second index stops, and the others follow. The
induction is on the way of the second index. -/
theorem runs_drop {vs : List Nat} {i : Nat} (hi : i < vs.length) :
    runs (vs.drop i)
      = (vs[i], vs.get ⟨runEnd vs i, runEnd_lt hi⟩) :: runs (vs.drop (runEnd vs i + 1)) := by
  induction i using runEnd.induct vs with
  | case1 i h hnext ih =>
    -- The value goes in front of the run that begins right behind it.
    simp only [runEnd_of_next h hnext]
    rw [List.drop_eq_getElem_cons hi, runs, ih h]
    exact if_pos hnext
  | case2 i h hgap =>
    -- The next run begins with the next value, which is further away, so this one is alone.
    obtain ⟨b, more, hruns⟩ := runs_cons_head vs[i + 1] (vs.drop (i + 2))
    rw [← List.drop_eq_getElem_cons h] at hruns
    simp only [runEnd_of_gap h hgap]
    rw [List.drop_eq_getElem_cons hi, runs, hruns]
    exact if_neg hgap
  | case3 i h =>
    have hnil : vs.drop (i + 1) = [] := List.drop_eq_nil_of_le (by omega)
    simp only [runEnd_of_last h]
    rw [List.drop_eq_getElem_cons hi, hnil]
    rfl

/-- The texts that the indices give are those of the runs. -/
theorem runTexts_eq {vs : List Nat} (h : vs.Pairwise (· < ·)) (i : Nat) :
    runTexts vs i = (runs (vs.drop i)).map writeRun := by
  induction i using runTexts.induct vs with
  | case1 i hi j hj hle ih =>
    -- The values ascend, so a run has more than one exactly if its ends differ.
    have hlt : i < runEnd vs i ↔ vs[i] < vs.get ⟨runEnd vs i, runEnd_lt hi⟩ := by
      constructor
      · intro hij
        exact List.pairwise_iff_getElem.1 h i (runEnd vs i) hi hj hij
      · intro hvalues
        by_contra hij
        have heq : runEnd vs i = i := le_antisymm (Nat.not_lt.1 hij) hle
        simp only [heq, List.get_eq_getElem, Nat.lt_irrefl] at hvalues
    rw [runTexts, dif_pos hi, runs_drop hi, List.map_cons, ← ih, writeRun]
    exact congrArg (· :: _) (if_congr hlt rfl rfl)
  | case2 i hi =>
    have hnil : vs.drop i = [] := List.drop_eq_nil_of_le (by omega)
    rw [runTexts, dif_neg hi, hnil]
    rfl

/-- A field is written from its mask as from its values. -/
theorem writeMask_mask (a : Admitted f) : writeMask f a.mask = writeField f a.values := by
  have hfull : a.mask = fullMask f ↔ a.values = f.range := by
    rw [fullMask, mask_eq_stepMask_iff (Nat.le_refl 1), everyNth_one]
  have hfound : ((List.range' 2 (f.greatest - f.least - 1)).find? fun n =>
        a.mask == stepMask f.least f.greatest n)
      = (List.range' 2 (f.greatest - f.least - 1)).find? fun n => a.values == everyNth f n := by
    apply List.find?_congr
    intro n hn
    have hpos : 1 ≤ n := le_trans (by decide) (List.mem_range'_1.1 hn).1
    rw [Bool.eq_iff_iff, beq_iff_eq, beq_iff_eq, mask_eq_stepMask_iff hpos]
  have htexts : runTexts a.values 0 = (runs a.values).map writeRun := runTexts_eq a.pairwise_lt 0
  rw [writeMask, writeField, hfound, filter_mask, htexts]
  exact if_congr hfull rfl rfl

/-- A crontab is written from its masks as from its values. -/
theorem writeMasks_masks (c : Crontab) : writeMasks c.masks = c.write := by
  unfold writeMasks write
  congr 2
  funext f
  rw [masks, writeMask_mask, values_field]

end Measurement.Crontab
