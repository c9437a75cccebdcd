import CausalBlocks.Proofs.Outcome
import CausalBlocks.Proofs.Scalar.Exact
import CausalBlocks.Trace.Dispatcher

/-!
# Rows at a regular distance

Where the start and the interval need no more decimal places than are kept, an interpolator
hands out one row at the start and at each interval after it, as far as the samples reach, and
finds its values between the two samples around it. Elsewhere it does not.
-/

namespace CausalBlocks

variable {α : Type} [Scalar α]

/-- The row at a time between two samples. -/
def Interpolation.row (method : Interpolation) (older newer : Row α) (time : α) : Row α :=
  ⟨time, List.zipWith (fun y0 y1 => method.apply older.time y0 newer.time y1 time)
    older.values newer.values⟩

namespace Interpolator

/-- The rows that several samples make available, and the interpolator after them. -/
def feedAll : Interpolator α → List (Row α) → List (Row α) × Interpolator α
  | i, [] => ([], i)
  | i, sample :: rest =>
    ((i.feed sample).1 ++ ((i.feed sample).2.feedAll rest).1, ((i.feed sample).2.feedAll rest).2)

/-- The time at which a row is due: a number of intervals after the start. -/
def dueTime (startTime interval : α) (k : ℕ) : α := startTime + (k : α) * interval

/-- A time lies between two samples that follow each other, or not after the first one. -/
inductive Around (samples : List (Row α)) (time : α) : Row α → Row α → Prop
  | first {sample : Row α} (h : samples[0]? = some sample) (hle : time ≤ sample.time) :
      Around samples time sample sample
  | between {older newer : Row α} {j : ℕ} (holder : samples[j]? = some older)
      (hnewer : samples[j + 1]? = some newer) (hlt : older.time < time) (hle : time ≤ newer.time) :
      Around samples time older newer

/-- The rows are those that are due up to the last sample, in order, each between its samples. -/
structure Regular (startTime interval : α) (method : Interpolation) (samples rows : List (Row α)) :
    Prop where
  times : ∃ n, rows.map Row.time = (List.range n).map (dueTime startTime interval) ∧
    ∀ k, k < n ↔ ∃ last ∈ samples.getLast?, dueTime startTime interval k ≤ last.time
  increasing : (rows.map Row.time).Pairwise (· < ·)
  values : ∀ row ∈ rows, ∃ older newer, Around samples row.time older newer ∧
    row = method.row older newer row.time

/-- Samples whose times do not decrease. -/
def Chronological (samples : List (Row α)) : Prop :=
  samples.Pairwise fun older newer => older.time ≤ newer.time

variable [Exact α] {startTime interval : α} {method : Interpolation} {i : Interpolator α} {n : ℕ}

open Exact

theorem value_dueTime (startTime interval : α) (k : ℕ) :
    value (dueTime startTime interval k) = value startTime + k * value interval := by
  rw [dueTime, value_add, value_mul, value_natCast]

theorem dueTime_lt_iff (hpositive : 0 < interval) {j k : ℕ} :
    dueTime startTime interval j < dueTime startTime interval k ↔ j < k := by
  rw [lt_iff, value_zero] at hpositive
  rw [lt_iff, value_dueTime, value_dueTime, add_lt_add_iff_left, mul_lt_mul_iff_left₀ hpositive,
    Nat.cast_lt]

theorem dueTime_le_iff (hpositive : 0 < interval) {j k : ℕ} :
    dueTime startTime interval j ≤ dueTime startTime interval k ↔ j ≤ k := by
  rw [le_iff, ← not_lt, ← lt_iff, dueTime_lt_iff hpositive, Nat.not_lt]

/-! ### One row -/

/-- The interpolator after a number of rows. -/
structure At (startTime interval : α) (method : Interpolation) (n : ℕ) (i : Interpolator α) :
    Prop where
  last : value i.lastTime = value startTime + (n - 1) * value interval
  places : i.places = placesFor interval
  interval : i.interval = interval
  method : i.method = method

theorem At.start (startTime interval : α) (method : Interpolation) :
    At startTime interval method 0 (start interval method startTime) where
  interval := rfl
  method := rfl
  places := rfl
  last := by
    change value (startTime - interval) = _
    rw [value_sub]
    push_cast
    ring

theorem At.nextTime_eq (h : At startTime interval method n i) :
    i.nextTime = dueTime startTime interval n := by
  apply value_injective
  rw [nextTime, value_add, h.last, h.interval, value_dueTime]
  ring

/-- The start and the interval need no more places than are kept. -/
structure Decimal (startTime interval : α) : Prop where
  start : OnGrid (placesFor interval) startTime
  interval : OnGrid (placesFor interval) interval

theorem Decimal.dueTime (h : Decimal startTime interval) (k : ℕ) :
    OnGrid (placesFor interval) (dueTime startTime interval k) :=
  h.start.add (h.interval.natCast_mul k)

theorem At.advance (h : At startTime interval method n i) (hdecimal : Decimal startTime interval) :
    At startTime interval method (n + 1) i.advance where
  interval := h.interval
  method := h.method
  places := h.places
  last := by
    rw [Interpolator.advance, h.places, h.nextTime_eq, (hdecimal.dueTime n).roundTo_eq,
      value_dueTime]
    push_cast
    ring

/-! ### One sample -/

/-- As far as the newer sample reaches, every turn gives the row that is due. -/
theorem At.collect (hdecimal : Decimal startTime interval) (older newer : Row α)
    (rows : List (Row α)) {count : ℕ} (h : At startTime interval method n i)
    (hreach : ∀ j < count, dueTime startTime interval (n + j) ≤ newer.time) :
    (Interpolator.collect older newer count i rows).1 = rows.reverse ++ (List.range count).map
        (fun j => method.row older newer (dueTime startTime interval (n + j))) ∧
      At startTime interval method (n + count) (Interpolator.collect older newer count i rows).2 := by
  induction count generalizing n i rows with
  | zero => exact ⟨(List.append_nil _).symm, h⟩
  | succ count ih =>
      have hfirst : i.nextTime ≤ newer.time := by
        rw [h.nextTime_eq]
        exact hreach 0 (Nat.succ_pos count)
      have hrow : i.rowAt older newer i.nextTime =
          method.row older newer (dueTime startTime interval n) := by
        rw [← h.nextTime_eq, ← h.method]
        rfl
      have hreach' : ∀ j < count, dueTime startTime interval (n + 1 + j) ≤ newer.time := by
        intro j hj
        have hle := hreach (j + 1) (by omega)
        rwa [← Nat.add_assoc, Nat.add_right_comm] at hle
      obtain ⟨hrows, hat⟩ := ih (i.rowAt older newer i.nextTime :: rows) (h.advance hdecimal) hreach'
      rw [Interpolator.collect, if_pos hfirst]
      refine ⟨?_, by rwa [Nat.add_right_comm] at hat⟩
      rw [hrows, hrow, List.range_succ_eq_map, List.map_cons, List.map_map, List.reverse_cons,
        List.append_assoc, List.singleton_append]
      simp only [Function.comp_def, Nat.succ_eq_add_one, Nat.add_right_comm, Nat.add_assoc,
        Nat.add_zero]

/-- The number of rows that are due up to a time. -/
noncomputable def reached (startTime interval time : α) : ℕ :=
  (⌊(value time - value startTime) / value interval⌋ + 1).toNat

theorem lt_reached_iff (hpositive : 0 < interval) {time : α} {k : ℕ} :
    k < reached startTime interval time ↔ dueTime startTime interval k ≤ time := by
  rw [lt_iff, value_zero] at hpositive
  rw [reached, le_iff, value_dueTime, Int.lt_toNat, Int.lt_add_one_iff, Int.le_floor,
    le_div_iff₀ hpositive, Int.cast_natCast, le_sub_iff_add_le']

/-- The number of turns is the number of rows that have become due. -/
theorem At.passed (h : At startTime interval method n i) (hpositive : 0 < interval) (time : α) :
    Scalar.toCount (Scalar.greater
      (Scalar.elementary .floor ((time - i.lastTime) / i.interval)) 0) =
        reached startTime interval time - n := by
  rw [lt_iff, value_zero] at hpositive
  have hquotient : value ((time - i.lastTime) / i.interval) =
      (value time - value startTime) / value interval + ((1 - n : ℤ) : ℝ) := by
    rw [h.interval, value_div _ _ hpositive.ne', value_sub, h.last]
    field_simp
    push_cast
    ring
  rw [toCount_eq, value_greater_zero, value_floor, hquotient, Int.floor_add_intCast, reached,
    ← Int.cast_zero, ← Int.cast_max, Int.floor_intCast]
  omega

theorem At.feed (h : At startTime interval method n i) (hdecimal : Decimal startTime interval)
    (hpositive : 0 < interval) (sample : Row α) :
    (i.feed sample).1 = (List.range (reached startTime interval sample.time - n)).map (fun j =>
        method.row (i.previous.getD sample) sample (dueTime startTime interval (n + j))) ∧
      At startTime interval method (n + (reached startTime interval sample.time - n))
        (i.feed sample).2 ∧ (i.feed sample).2.previous = some sample := by
  have hreach : ∀ j < reached startTime interval sample.time - n,
      dueTime startTime interval (n + j) ≤ sample.time := fun j hj =>
    (lt_reached_iff hpositive).mp (by omega)
  obtain ⟨hrows, hat⟩ := h.collect hdecimal (i.previous.getD sample) sample [] hreach
  rw [← h.passed hpositive] at hrows hat ⊢
  exact ⟨hrows, ⟨hat.last, hat.places, hat.interval, hat.method⟩, rfl⟩

/-! ### All samples -/

omit [Exact α] in
theorem Around.append {samples : List (Row α)} {time : α} {older newer : Row α}
    (h : Around samples time older newer) (more : List (Row α)) :
    Around (samples ++ more) time older newer := by
  have hkeep {j : ℕ} {sample : Row α} (hj : samples[j]? = some sample) :
      (samples ++ more)[j]? = some sample := by
    rw [List.getElem?_append_left (List.getElem?_eq_some_iff.mp hj).1, hj]
  cases h with
  | first hfirst hle => exact .first (hkeep hfirst) hle
  | between holder hnewer hlt hle => exact .between (hkeep holder) (hkeep hnewer) hlt hle

/-- What has been handed out after some samples. -/
structure Progress (startTime interval : α) (method : Interpolation) (samples rows : List (Row α))
    (i : Interpolator α) (n : ℕ) : Prop where
  state : At startTime interval method n i
  previous : i.previous = samples.getLast?
  times : rows.map Row.time = (List.range n).map (dueTime startTime interval)
  due : ∀ k, k < n ↔ ∃ last ∈ samples.getLast?, dueTime startTime interval k ≤ last.time
  values : ∀ row ∈ rows, ∃ older newer, Around samples row.time older newer ∧
    row = method.row older newer row.time

/-- The next sample adds the rows that have become due since the one before. -/
theorem Progress.feed {samples rows : List (Row α)} {sample : Row α}
    (h : Progress startTime interval method samples rows i n) (hdecimal : Decimal startTime interval)
    (hpositive : 0 < interval) (hlater : ∀ last ∈ samples.getLast?, last.time ≤ sample.time) :
    ∃ n', Progress startTime interval method (samples ++ [sample]) (rows ++ (i.feed sample).1)
      (i.feed sample).2 n' := by
  obtain ⟨hrows, hat, hprevious⟩ := h.state.feed hdecimal hpositive sample
  have hmore : n ≤ reached startTime interval sample.time := by
    by_contra hless
    obtain ⟨last, hlast, hdue⟩ := (h.due _).mp (Nat.lt_of_not_le hless)
    have hle := hlater last hlast
    rw [le_iff] at hdue hle
    exact Nat.lt_irrefl _ ((lt_reached_iff hpositive).mpr ((le_iff _ _).mpr (hdue.trans hle)))
  rw [Nat.add_sub_cancel' hmore] at hat
  refine ⟨_, hat, ?_, ?_, ?_, ?_⟩
  · rw [hprevious, List.getLast?_concat]
  · rw [hrows, List.map_append, h.times, List.map_map, ← Nat.add_sub_cancel' hmore, List.range_add,
      List.map_append, List.map_map, Nat.add_sub_cancel_left]
    rfl
  · intro k
    rw [lt_reached_iff hpositive, List.getLast?_concat]
    simp
  · intro row hrow
    rcases List.mem_append.mp hrow with hrow | hrow
    · obtain ⟨older, newer, haround, heq⟩ := h.values row hrow
      exact ⟨older, newer, haround.append _, heq⟩
    · rw [hrows] at hrow
      obtain ⟨j, hj, rfl⟩ := List.mem_map.mp hrow
      have hle : dueTime startTime interval (n + j) ≤ sample.time :=
        (lt_reached_iff hpositive).mp (by have := List.mem_range.mp hj; omega)
      refine ⟨_, sample, ?_, rfl⟩
      change Around _ (dueTime startTime interval (n + j)) _ _
      rw [h.previous]
      cases hlast : samples.getLast? with
      | none =>
          rw [List.getLast?_eq_none_iff.mp hlast]
          exact .first rfl hle
      | some last =>
          have hlt : last.time < dueTime startTime interval (n + j) := by
            rw [lt_iff, ← not_le, ← le_iff]
            intro hdue
            have hbefore := (h.due (n + j)).mpr ⟨last, hlast, hdue⟩
            omega
          rw [List.getLast?_eq_getElem?] at hlast
          obtain ⟨hlength, _⟩ := List.getElem?_eq_some_iff.mp hlast
          have hnext : samples.length - 1 + 1 = samples.length := by omega
          refine .between (j := samples.length - 1) ?_ ?_ hlt hle
          · rw [List.getElem?_append_left hlength, hlast]
            rfl
          · rw [hnext, List.getElem?_concat_length]

theorem feedAll_progress {fed rows : List (Row α)} (samples : List (Row α))
    (h : Progress startTime interval method fed rows i n) (hdecimal : Decimal startTime interval)
    (hpositive : 0 < interval) (hsorted : Chronological (fed ++ samples)) :
    ∃ n', Progress startTime interval method (fed ++ samples) (rows ++ (i.feedAll samples).1)
      (i.feedAll samples).2 n' := by
  induction samples generalizing fed rows i n with
  | nil => exact ⟨n, by simpa [feedAll] using h⟩
  | cons sample rest ih =>
      have hlater : ∀ last ∈ fed.getLast?, last.time ≤ sample.time := by
        intro last hlast
        exact (List.pairwise_append.mp hsorted).2.2 last (List.mem_of_getLast? hlast) sample
          List.mem_cons_self
      obtain ⟨n₁, h₁⟩ := h.feed hdecimal hpositive hlater
      obtain ⟨n', h'⟩ := ih h₁ (by simpa using hsorted)
      exact ⟨n', by simpa [feedAll] using h'⟩

/-- The rows are regular. -/
theorem Decimal.regular (hdecimal : Decimal startTime interval) (hpositive : 0 < interval)
    {samples : List (Row α)} (hsorted : Chronological samples) :
    Regular startTime interval method samples
      ((Interpolator.start interval method startTime).feedAll samples).1 := by
  have hnone : Progress startTime interval method [] []
      (Interpolator.start interval method startTime) 0 :=
    ⟨.start startTime interval method, rfl, rfl, fun k => by simp, fun _ hrow => by cases hrow⟩
  obtain ⟨n, h⟩ := feedAll_progress samples hnone hdecimal hpositive hsorted
  refine ⟨⟨n, h.times, h.due⟩, ?_, h.values⟩
  have htimes := h.times
  rw [List.nil_append] at htimes
  rw [htimes, List.pairwise_map]
  exact List.pairwise_lt_range.imp (dueTime_lt_iff hpositive).mpr

omit [Exact α] in
theorem pos_of_add {d d' : Dispatcher α} (h : d.add (some (interval, method)) = .ok d') :
    0 < interval := by
  by_contra hnot
  simp [Dispatcher.add, hnot] at h
  cases h

omit [Exact α] in
theorem add_total (d : Dispatcher α) (method : Interpolation) (hpositive : 0 < interval)
    (hbounded : Scalar.bounded interval = true) :
    ∃ d', d.add (some (interval, method)) = .ok d' := by
  simp only [Dispatcher.add, hpositive, hbounded, and_self, if_true]
  exact ⟨_, rfl⟩

/-! ### Elsewhere -/

omit [Exact α] in
/-- What is handed out in some turns are the rows of those that the newer sample reaches. -/
theorem collect_times (older newer : Row α) (count : ℕ) (i : Interpolator α) (rows : List (Row α)) :
    (collect older newer count i rows).1.map Row.time = rows.reverse.map Row.time ++
      ((List.range count).map fun j => (Interpolator.advance^[j] i).nextTime).filter
        (· ≤ newer.time) := by
  induction count generalizing i rows with
  | zero => exact (List.append_nil _).symm
  | succ count ih =>
      rw [collect, ih, List.range_succ_eq_map, List.map_cons, List.map_map, Function.iterate_zero,
        id_eq, List.filter_cons]
      by_cases hle : i.nextTime ≤ newer.time <;> simp [hle, Function.comp_def, rowAt]

theorem value_dueTime_succ (startTime interval : α) (k : ℕ) :
    value (dueTime startTime interval (k + 1)) =
      value (dueTime startTime interval k) + value interval := by
  rw [value_dueTime, value_dueTime]
  push_cast
  ring

/-- A turn that leads from one due time to the next has not moved the first one. -/
theorem onGrid_of_advance {k : ℕ} (hinterval : i.interval = interval)
    (hplaces : i.places = placesFor interval) (hnow : i.nextTime = dueTime startTime interval k)
    (hnext : i.advance.nextTime = dueTime startTime interval (k + 1)) :
    OnGrid (placesFor interval) (dueTime startTime interval k) := by
  have hvalue := congrArg value hnext
  rw [nextTime, value_add, value_dueTime_succ] at hvalue
  change value (Scalar.roundTo i.nextTime i.places) + value i.interval = _ at hvalue
  rw [hinterval, add_left_inj, hplaces, hnow] at hvalue
  rw [← value_injective hvalue]
  exact onGrid_roundTo _ _

theorem reached_dueTime (hpositive : 0 < interval) (k : ℕ) :
    reached startTime interval (dueTime startTime interval k) = k + 1 := by
  have hiff (j : ℕ) : j < reached startTime interval (dueTime startTime interval k) ↔ j ≤ k :=
    (lt_reached_iff hpositive).trans (dueTime_le_iff hpositive)
  have hlast := (hiff k).mpr le_rfl
  have hnext := mt (hiff (k + 1)).mp (by omega)
  omega

/-- Three rows at a regular distance are enough to tell that the start and the interval need no
more places than are kept. -/
theorem decimal_of_regular (hpositive : 0 < interval)
    (h : Regular startTime interval method [⟨dueTime startTime interval 2, []⟩]
      ((start interval method startTime).feedAll [⟨dueTime startTime interval 2, []⟩]).1) :
    Decimal startTime interval := by
  let sample : Row α := ⟨dueTime startTime interval 2, []⟩
  let first := start interval method startTime
  have hfirst : At startTime interval method 0 first := .start startTime interval method
  obtain ⟨n, htimes, hdue⟩ := h.times
  have hn : n = 3 := by
    have hiff (k : ℕ) : k < n ↔ k ≤ 2 := by
      rw [hdue]
      simp [dueTime_le_iff hpositive]
    have hlast := (hiff 2).mpr le_rfl
    have hnext := mt (hiff 3).mp (by omega)
    omega
  have hpassed := hfirst.passed hpositive sample.time
  rw [reached_dueTime hpositive] at hpassed
  have hrows : (first.feedAll [sample]).1 = (collect sample sample 3 first []).1 := by
    rw [feedAll, feedAll, List.append_nil]
    change (collect sample sample (Scalar.toCount _) first []).1 = _
    rw [hpassed]
  change (first.feedAll [sample]).1.map Row.time = _ at htimes
  rw [hrows, collect_times, hn] at htimes
  -- three turns hand out three rows only if each hands out one
  have hthree : (List.range 3).map (fun j => (Interpolator.advance^[j] first).nextTime) =
      (List.range 3).map (dueTime startTime interval) := by
    rw [List.reverse_nil, List.map_nil, List.nil_append] at htimes
    have hlength := congrArg List.length htimes
    rw [List.length_map, List.length_range] at hlength
    rw [← htimes]
    exact (List.filter_eq_self.mpr (List.length_filter_eq_length_iff.mp hlength)).symm
  obtain ⟨h₀, h₁, h₂⟩ : first.nextTime = dueTime startTime interval 0 ∧
      first.advance.nextTime = dueTime startTime interval 1 ∧
        first.advance.advance.nextTime = dueTime startTime interval 2 := by
    simpa [List.range_succ] using hthree
  have hgrid₀ := onGrid_of_advance hfirst.interval hfirst.places h₀ h₁
  have hgrid₁ := onGrid_of_advance (i := first.advance) hfirst.interval hfirst.places h₁ h₂
  have hstart : dueTime startTime interval 0 = startTime := by
    apply value_injective
    rw [value_dueTime, Nat.cast_zero, zero_mul, add_zero]
  have hinterval : dueTime startTime interval 1 - dueTime startTime interval 0 = interval := by
    apply value_injective
    rw [value_sub, value_dueTime_succ, add_sub_cancel_left]
  have hdifference := hgrid₁.sub hgrid₀
  rw [hstart] at hgrid₀
  rw [hinterval] at hdifference
  exact ⟨hgrid₀, hdifference⟩

/-- Rows are regular for all samples exactly if the start and the interval need no more decimal
places than are kept. -/
theorem regular_iff {d d' : Dispatcher α} (h : d.add (some (interval, method)) = .ok d') :
    (∀ samples, Chronological samples → Regular startTime interval method samples
      ((start interval method startTime).feedAll samples).1) ↔ Decimal startTime interval := by
  have hpositive := pos_of_add h
  refine ⟨fun hregular => decimal_of_regular hpositive (hregular _ (List.pairwise_singleton _ _)),
    fun hdecimal samples hsorted => hdecimal.regular hpositive hsorted⟩

/-- Rows at each half from a quarter on, where a half is written with one digit after the point:
three places are kept, and two are needed. -/
theorem regular_from_quarter : letI := Rational.writtenWith fun _ => 1
    letI := Rational.exactWrittenWith fun _ => 1
    ∃ d' : Dispatcher ℚ, ({} : Dispatcher ℚ).add (some (1 / 2, .linear)) = .ok d' ∧
      ∀ samples : List (Row ℚ), Chronological samples → Regular (1 / 4) (1 / 2) .linear samples
        ((start (1 / 2) .linear (1 / 4)).feedAll samples).1 := by
  let _ := Rational.writtenWith fun _ => 1
  let _ := Rational.exactWrittenWith fun _ => 1
  obtain ⟨d', hadd⟩ : ∃ d', ({} : Dispatcher ℚ).add (some (1 / 2, .linear)) = .ok d' :=
    add_total {} .linear (by decide +kernel) (by decide +kernel)
  have hplaces : placesFor (1 / 2 : ℚ) = 3 := by
    change min ((1 + 2) / 3 * 3) 15 = 3
    rfl
  have hdecimal : Decimal (1 / 4 : ℚ) (1 / 2) := by
    refine ⟨⟨250, ?_⟩, ⟨500, ?_⟩⟩
    · change ((1 / 4 : ℚ) : ℝ) * 10 ^ placesFor (1 / 2 : ℚ) = _
      rw [hplaces]
      norm_num
    · change ((1 / 2 : ℚ) : ℝ) * 10 ^ placesFor (1 / 2 : ℚ) = _
      rw [hplaces]
      norm_num
  exact ⟨d', hadd, (regular_iff hadd).mpr hdecimal⟩

/-- Rows at each whole interval from a half on. The one after the first is due at one and a half,
and the interpolator waits for two. -/
theorem not_regular_from_half : ∃ (d' : Dispatcher ℚ) (samples : List (Row ℚ)),
    ({} : Dispatcher ℚ).add (some (1, .linear)) = .ok d' ∧ Chronological samples ∧
      ¬ Regular (1 / 2) 1 .linear samples ((start 1 .linear (1 / 2)).feedAll samples).1 := by
  let samples : List (Row ℚ) := [⟨1 / 2, [5]⟩, ⟨3 / 2, [15]⟩]
  obtain ⟨hsorted, honce, hdue⟩ : (1 / 2 : ℚ) ≤ 3 / 2 ∧
      ((start 1 .linear (1 / 2)).feedAll samples).1.map Row.time = [(1 / 2 : ℚ)] ∧
        dueTime (1 / 2 : ℚ) 1 1 ≤ 3 / 2 := by
    decide +kernel
  refine ⟨_, samples, rfl, by simpa [Chronological, samples] using hsorted, fun h => ?_⟩
  obtain ⟨n, htimes, hreach⟩ := h.times
  rw [honce] at htimes
  have hlength := congrArg List.length htimes
  rw [List.length_map, List.length_range] at hlength
  have hmore := (hreach 1).mpr ⟨⟨3 / 2, [15]⟩, rfl, hdue⟩
  exact absurd hlength hmore.ne

end Interpolator

end CausalBlocks
