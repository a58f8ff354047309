import FlowTree.Proofs.Session.Repeating

/-!
# Where the date on show comes from

Three things choose a date: the wish of the host, the date that stands in for a wish that no run lists, and
every date that is asked for later.  The wish and the later dates are looked up, so the selection says where
they are found.  The date that stands in is not: it is the first one of the first run, and if this run has
no dates, it is the empty text at a place that does not exist, however many dates other runs have.

* **`Series.locate?_spec`** and **`Series.isSome_locate?_iff`** say what looking up a date finds,
  **`Series.locate?_head_iff`** says when the date that stands in is where the selection says.
* **`Diagram.resolved_answer_iff`** says what an answer makes of the selection, **`Session.resolved_run_iff`**
  what a sequence of changes makes of it.
* **`Session.date_resolved_iff`** says when the selection is that of a date of the series;
  **`Session.date_unresolved_before_dated_run`** is a series with a date where it is not.
-/

namespace FlowTree

variable {α : Type}

/-! ### Looking up a date -/

namespace Series

/-- A date that is found is in the run and at the position that are told. -/
theorem locate?_spec {runs : List (Run α)} {date : String} {run index : Nat}
    (found : locate? runs date = some (run, index)) :
    ∃ r, runs[run]? = some r ∧ r.dates[index]? = some date := by
  induction runs generalizing run with
  | nil => cases found
  | cons r runs ih =>
    rw [locate?] at found
    split at found
    · next hindex =>
      cases found
      obtain ⟨hlt, heq, -⟩ := List.findIdx?_eq_some_iff_getElem.mp hindex
      exact ⟨r, rfl, by rw [List.getElem?_eq_getElem hlt, beq_iff_eq.mp heq]⟩
    · obtain ⟨⟨k, i⟩, hk, heq⟩ := Option.map_eq_some_iff.mp found
      cases heq
      exact ih hk

/-- Just the dates of the series are found. -/
theorem isSome_locate?_iff {runs : List (Run α)} {date : String} :
    (locate? runs date).isSome = true ↔ date ∈ dates runs := by
  induction runs with
  | nil => simp [locate?, dates]
  | cons r runs ih =>
    rw [dates, List.flatMap_cons, List.mem_append, ← dates, ← ih, locate?]
    cases hindex : r.dates.findIdx? (· == date) with
    | none =>
      have hnot : date ∉ r.dates := fun hmem =>
        Bool.false_ne_true ((List.findIdx?_eq_none_iff.mp hindex date hmem).symm.trans (beq_self_eq_true _))
      simp [hnot]
    | some index =>
      obtain ⟨hlt, heq, -⟩ := List.findIdx?_eq_some_iff_getElem.mp hindex
      have hmem : date ∈ r.dates := beq_iff_eq.mp heq ▸ List.getElem_mem hlt
      simp [hmem]

/-- The first date of the first run is found in front of all others; the empty text that stands in if there is
none is not. -/
theorem locate?_head_iff {runs : List (Run α)} :
    locate? runs ((runs.head?.bind (·.dates.head?)).getD "") = some (0, 0) ↔
      (runs.head?.bind (·.dates.head?)).isSome = true := by
  cases runs with
  | nil => simp [locate?]
  | cons r runs =>
    rw [List.head?_cons, Option.bind_some]
    cases hdates : r.dates with
    | nil => simp [locate?, hdates]
    | cons date dates => simp [locate?, hdates, List.findIdx?_cons]

end Series

/-! ### The first selection -/

namespace Diagram

instance (d : Diagram α) : Decidable d.Resolved := inferInstanceAs (Decidable (_ = _))

theorem Resolved.date_mem {d : Diagram α} (h : d.Resolved) : d.selection.date ∈ d.dates :=
  Series.isSome_locate?_iff.mp (Option.isSome_of_eq_some h)

/-- The date is one of the run on show, at the position whose values are drawn. -/
theorem Resolved.getElem?_dates {d : Diagram α} (h : d.Resolved) :
    d.shownRun.dates[d.view.dateIndex]? = some d.selection.date := by
  obtain ⟨r, hr, hdate⟩ := Series.locate?_spec h
  rw [getElem?_shownRun] at hr
  cases hr
  exact hdate

theorem locate?_initialSelection_iff (initial : InitialSelection) (runs : List (Run α)) :
    (Series.locate? runs (initialSelection initial runs).1.date =
        some ((initialSelection initial runs).1.run, (initialSelection initial runs).1.dateIndex)) ↔
      initial.date ∈ Series.dates runs ∨ (runs.head?.bind (·.dates.head?)).isSome = true := by
  rw [← Series.isSome_locate?_iff]
  cases found : Series.locate? runs initial.date with
  | none =>
    rw [initialSelection, Selection.resolve?, found]
    simpa using Series.locate?_head_iff
  | some place =>
    rw [initialSelection, Selection.resolve?, found]
    simpa using found

/-! ### Answers -/

variable [Scalar α] [Printed α] {d : Diagram α}

theorem map_dates_render (d : Diagram α) (before : Option (Hierarchy α)) :
    (d.render before).diagram.runs.map (·.dates) = d.runs.map (·.dates) := map_dates_withTree d _

theorem resolved_render (d : Diagram α) (before : Option (Hierarchy α)) :
    (d.render before).diagram.Resolved ↔ d.Resolved := by
  rw [Resolved, locate?_congr (d.map_dates_render before)]
  rfl

/-- No answer changes the dates of the runs. -/
theorem map_dates_answer {st : Step α} {change : Change α} (hanswer : d.answer st = some change) :
    change.diagram.runs.map (·.dates) = d.runs.map (·.dates) := by
  cases answers_of_answer hanswer with
  | setDate found events => exact map_dates_render _ _
  | @toggleBranch _ _ tree shown toggled events =>
    exact (map_dates_render (d.withTree tree) _).trans (map_dates_withTree d tree)
  | setEdgeAttribute key => rfl
  | setNodeAttribute key => rfl

/-- **An answer** to a date resolves the selection; all others leave it as it is. -/
theorem resolved_answer_iff {st : Step α} {change : Change α} (hanswer : d.answer st = some change) :
    change.diagram.Resolved ↔ d.Resolved ∨ ∃ date ∈ d.dates, st = .setDate date := by
  have hkept (hst : ∀ date, st ≠ .setDate date) :
      d.Resolved ↔ d.Resolved ∨ ∃ date ∈ d.dates, st = .setDate date :=
    ⟨Or.inl, Or.rec id fun ⟨date, _, heq⟩ => absurd heq (hst date)⟩
  cases answers_of_answer hanswer with
  | @setDate date run index found events =>
    refine ⟨fun _ => Or.inr ⟨date, ?_, rfl⟩, fun _ => ?_⟩
    · exact Series.isSome_locate?_iff.mp (Option.isSome_of_eq_some found)
    · exact (resolved_render _ _).mpr found
  | @toggleBranch _ _ tree shown toggled events =>
    rw [← hkept fun _ heq => nomatch heq]
    refine (resolved_render (d.withTree tree) _).trans ?_
    rw [Resolved, locate?_congr (map_dates_withTree d tree)]
    rfl
  | setEdgeAttribute key => exact hkept fun _ heq => nomatch heq
  | setNodeAttribute key => exact hkept fun _ heq => nomatch heq

/-- Every date of the series can be chosen. -/
theorem exists_answer_setDate {date : String} (hdate : date ∈ d.dates) :
    ∃ change, d.answer (.setDate date) = some change := by
  obtain ⟨⟨run, index⟩, found⟩ := Option.isSome_iff_exists.mp (Series.isSome_locate?_iff.mpr hdate)
  obtain ⟨events, hok⟩ := setDate_of_found found
  exact ⟨_, congrArg Except.toOption hok⟩

/-- So it is after one step, be it answered or not. -/
theorem next_spec (d : Diagram α) (st : Step α) :
    (d.next st).runs.map (·.dates) = d.runs.map (·.dates) ∧
      ((d.next st).Resolved ↔ d.Resolved ∨ ∃ date ∈ d.dates, st = .setDate date) := by
  rw [next]
  cases hanswer : d.answer st with
  | some change => exact ⟨map_dates_answer hanswer, resolved_answer_iff hanswer⟩
  | none =>
    refine ⟨rfl, Or.inl, Or.rec id fun ⟨date, hdate, heq⟩ => ?_⟩
    obtain ⟨change, hsome⟩ := exists_answer_setDate hdate
    rw [heq, hsome] at hanswer
    cases hanswer

end Diagram

/-! ### Sessions -/

namespace Session

variable [Scalar α] [Printed α]

theorem diagram_step (s : Session α) (st : Step α) : (s.step st).diagram = s.diagram.next st := by
  have hfollow : (s.follow (s.diagram.answer st)).diagram = s.diagram.next st := by
    rw [Diagram.next]
    cases s.diagram.answer st <;> rfl
  cases st with
  | advance ms => rfl
  | setDate date => exact hfollow
  | toggleBranch id => exact hfollow
  | setEdgeAttribute key => exact hfollow
  | setNodeAttribute key => exact hfollow

/-- **A sequence of changes** resolves the selection as soon as a date of the series is asked for. -/
theorem resolved_run_iff (s : Session α) (steps : List (Step α)) :
    (s.run steps).diagram.runs.map (·.dates) = s.diagram.runs.map (·.dates) ∧
      ((s.run steps).diagram.Resolved ↔
        s.diagram.Resolved ∨ ∃ date ∈ s.diagram.dates, .setDate date ∈ steps) := by
  induction steps generalizing s with
  | nil => simp [run]
  | cons st steps ih =>
    obtain ⟨hdates, hstep⟩ := s.diagram.next_spec st
    obtain ⟨hrun, hresolved⟩ := ih (s.step st)
    rw [diagram_step] at hrun hresolved
    have hsame : (s.diagram.next st).dates = s.diagram.dates := by
      rw [Diagram.dates, Diagram.dates, Series.dates, Series.dates, List.flatMap_def, List.flatMap_def,
        hdates]
    refine ⟨hrun.trans hdates, hresolved.trans ?_⟩
    simp only [hstep, hsame, List.mem_cons, eq_comm (a := st), and_or_left, exists_or, or_assoc]

/-- The dates of a diagram are those of its document. -/
theorem dates_start (doc : Document α) (initial : InitialSelection) (settings : Settings α) :
    (start doc initial settings).diagram.runs.map (·.dates) = (Series.orNoData doc.data).map (·.dates) := by
  refine (Diagram.map_dates_render _ none).trans ?_
  exact List.map_map

theorem resolved_start_iff (doc : Document α) (initial : InitialSelection) (settings : Settings α) :
    (start doc initial settings).diagram.Resolved ↔
      initial.date ∈ (Series.orNoData doc.data).flatMap (·.dates) ∨
        ∃ t date, (Series.orNoData doc.data).head? = some t ∧ t.dates.head? = some date := by
  have hdates : Series.dates (Series.build doc.data settings.canvas) =
      (Series.orNoData doc.data).flatMap (·.dates) := List.flatMap_map _ _ _
  have hfirst : ((Series.build doc.data settings.canvas).head?.bind (·.dates.head?)).isSome = true ↔
      ∃ t date, (Series.orNoData doc.data).head? = some t ∧ t.dates.head? = some date := by
    rw [Series.build, List.head?_map]
    cases Series.orNoData doc.data with
    | nil => simp
    | cons t ts => simp [Series.runOf, Option.isSome_iff_exists]
  rw [← hdates, ← hfirst]
  exact (Diagram.resolved_render _ none).trans
    (Diagram.locate?_initialSelection_iff initial (Series.build doc.data settings.canvas))

/-- **When the date on show is a date of the series.**  After any sequence of changes and moments, the date on
show is found where the selection says if and only if the wish for the first date is a date of the series,
or the first run has a date, or a date of the series has been asked for.  Then it is a date of the series,
it belongs to the run and to the values that are drawn, and if it is asked for again nothing moves. -/
theorem date_resolved_iff (doc : Document α) (settings : Settings α) (initial : InitialSelection)
    (steps : List (Step α)) :
    (play doc settings initial steps).diagram.dates = (Series.orNoData doc.data).flatMap (·.dates) ∧
    ((play doc settings initial steps).diagram.Resolved ↔
      initial.date ∈ (play doc settings initial steps).diagram.dates ∨
      (∃ t date, (Series.orNoData doc.data).head? = some t ∧ t.dates.head? = some date) ∨
      ∃ date ∈ (play doc settings initial steps).diagram.dates, .setDate date ∈ steps) ∧
    ((play doc settings initial steps).diagram.Resolved →
      (play doc settings initial steps).diagram.selection.date ∈
        (play doc settings initial steps).diagram.dates ∧
      (play doc settings initial steps).diagram.shownRun.dates[(play doc settings initial
        steps).diagram.view.dateIndex]? = some (play doc settings initial steps).diagram.selection.date ∧
      ∃ again, (play doc settings initial steps).diagram.setDate
          (play doc settings initial steps).diagram.selection.date = .ok again ∧
        again.diagram = (play doc settings initial steps).diagram) := by
  have hsound := sound_play doc settings initial steps
  obtain ⟨hrun, hresolved⟩ := resolved_run_iff (start doc initial settings) steps
  have hdates : ∀ d : Diagram α, d.runs.map (·.dates) = (Series.orNoData doc.data).map (·.dates) →
      d.dates = (Series.orNoData doc.data).flatMap (·.dates) := by
    intro d hd
    rw [Diagram.dates, Series.dates, List.flatMap_def, hd, ← List.flatMap_def]
  have hstart := hdates _ (dates_start doc initial settings)
  have hplay := hdates (play doc settings initial steps).diagram (hrun.trans (dates_start doc initial settings))
  refine ⟨hplay, ?_, fun h => ⟨h.date_mem, h.getElem?_dates, ?_⟩⟩
  · rw [hplay, ← or_assoc, ← resolved_start_iff doc initial settings, ← hstart]
    exact hresolved
  · obtain ⟨again, hok, hsame, -⟩ := hsound.setDate_again h
    exact ⟨again, hok, hsame⟩

/-- A series whose first run has no dates. -/
def lateDates : Document ℚ where
  data := [⟨[], .node { label := "R" } []⟩, ⟨["2"], .node { label := "R" } []⟩]

/-- **A date of a later run is overlooked.**  If the wish is not a date of the series and the first run has no
dates, the date on show is none of the series although a later run has one, and it cannot be chosen. -/
theorem date_unresolved_before_dated_run :
    lateDates.firstDate? = some "2" ∧
      (play lateDates .default { date := "9" } []).diagram.dates = ["2"] ∧
      ¬(play lateDates .default { date := "9" } []).diagram.Resolved ∧
      (play lateDates .default { date := "9" } []).diagram.setDate
          (play lateDates .default { date := "9" } []).diagram.selection.date =
        .error (.unknownDate "") := by
  have hdate : (play lateDates .default { date := "9" } []).diagram.selection.date = "" := by
    decide +kernel
  refine ⟨by decide, by decide +kernel, by decide +kernel, ?_⟩
  rw [hdate]
  exact Diagram.setDate_of_not_found (by decide +kernel)

end Session

end FlowTree
