import FlowTree.Hierarchy.Basic

/-!
# Series of runs

A series of dated trees becomes a list of runs, each with its own hierarchy, and a selection says
which date of which run is on show and which attributes are drawn.

* **`Series.build`** makes one run of each dated tree; an empty series becomes one run without data.
* **`Series.locate?`** finds the first run that lists a date, and the position of the date in it.
* **`Selection.resolve?`** selects a date that some run lists.
-/

namespace FlowTree

/-- A hierarchy and the dates for which it holds. -/
structure Run (α : Type) where
  dates : List String
  tree : Hierarchy α

namespace Series

variable {α : Type}

/-- The dated trees that are drawn: the given ones, or a stand-in if there are none. -/
def orNoData (trees : List (DatedTree α)) : List (DatedTree α) :=
  if trees.isEmpty then [.noData] else trees

/-- The run of a dated tree; its root starts from the middle of the left side. -/
def runOf [Scalar α] (canvas : Canvas α) (t : DatedTree α) : Run α :=
  ⟨t.dates, (Hierarchy.ofTree t.tree).updateRoot fun n => { n with start := canvas.rootOrigin }⟩

/-- The runs of a series. -/
def build [Scalar α] (trees : List (DatedTree α)) (canvas : Canvas α) : List (Run α) :=
  (orNoData trees).map (runOf canvas)

/-- A series has at least one run. -/
theorem build_length_pos [Scalar α] (trees : List (DatedTree α)) (canvas : Canvas α) :
    0 < (build trees canvas).length := by
  cases trees <;> simp [build, orNoData]

/-- The first run that lists `date`, and the first position of the date in it. -/
def locate? : List (Run α) → String → Option (Nat × Nat)
  | [], _ => none
  | r :: rest, date =>
    match r.dates.findIdx? (· == date) with
    | some index => some (0, index)
    | none => (locate? rest date).map fun (run, index) => (run + 1, index)

/-- A located run is one of the list. -/
theorem locate?_run_lt {runs : List (Run α)} {date : String} {run index : Nat}
    (h : locate? runs date = some (run, index)) : run < runs.length := by
  induction runs generalizing run with
  | nil => simp [locate?] at h
  | cons r rest ih =>
    rw [locate?] at h
    split at h
    · simp only [Option.some.injEq, Prod.mk.injEq] at h
      simp [← h.1]
    · simp only [Option.map_eq_some_iff, Prod.mk.injEq, Prod.exists] at h
      obtain ⟨k, i, found, rfl, rfl⟩ := h
      have := ih found
      simp only [List.length_cons]
      omega

/-- Every date of the series, run by run. -/
def dates (runs : List (Run α)) : List String := runs.flatMap (·.dates)

end Series

/-- What is to be shown first. -/
structure InitialSelection where
  edgeKey : String := ""
  nodeKey : String := ""
  date : String := ""
  deriving DecidableEq, Repr

/-- The attributes that are drawn, and the date on show with its place in the series. -/
structure Selection where
  edgeKey : String
  nodeKey : String
  date : String
  run : Nat
  dateIndex : Nat
  deriving DecidableEq, Repr

namespace Selection

variable {α : Type}

/-- The selection of a date that some run lists. -/
def resolve? (initial : InitialSelection) (runs : List (Run α)) : Option Selection :=
  (Series.locate? runs initial.date).map fun (run, index) =>
    { edgeKey := initial.edgeKey, nodeKey := initial.nodeKey, date := initial.date, run := run,
      dateIndex := index }

/-- The selection of another date. -/
def moveTo (s : Selection) (date : String) (run dateIndex : Nat) : Selection :=
  { s with date := date, run := run, dateIndex := dateIndex }

end Selection

end FlowTree
