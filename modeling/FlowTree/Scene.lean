import FlowTree.Directive
import FlowTree.Event

/-!
# Scenes

A scene holds the elements that are drawn and plays passes over time.

* **`Scene.apply`** retargets one element; its transition starts from what it shows at that moment.
* **`Scene.advance`** moves the clock: running transitions go on, and an element whose exit is over
  is dropped.
* **`Scene.settle`** advances until nothing moves any more.
* **`Scene.events`** is what is reported about a pass.
-/

namespace FlowTree

/-- A change of an element on its way. -/
structure Transition (α : Type) where
  source : Visual α
  goal : Visual α
  elapsed : α
  duration : α

namespace Transition

variable {α : Type} [Scalar α]

/-- The part of the time that has passed, at most all of it. -/
def progress (t : Transition α) : α :=
  if Scalar.le t.duration Scalar.zero then Scalar.one
  else Scalar.min (t.elapsed / t.duration) Scalar.one

/-- The time that is left. -/
def remaining (t : Transition α) : α := t.duration - t.elapsed

end Transition

/-- An element with what it shows, whether it is about to go, and its transition if there is one. -/
structure SceneElement (α : Type) where
  key : ElementKey
  visual : Visual α
  exiting : Bool := false
  transition : Option (Transition α) := none

namespace SceneElement

variable {α : Type}

/-- A transition is running. -/
def isAnimating (e : SceneElement α) : Bool := e.transition.isSome

/-- What the element shows in the end. -/
def target (e : SceneElement α) : Visual α := (e.transition.map (·.goal)).getD e.visual

variable [Scalar α]

/-- The element on its way from what it shows now to `goal`. -/
def begin (e : SceneElement α) (goal : Visual α) (duration : Nat) : SceneElement α :=
  { e with transition := some ⟨e.visual, goal, Scalar.zero, Scalar.ofNat duration⟩ }

/-- The element after some time; `none` if its exit is over. -/
def advance (ms : α) (e : SceneElement α) : Option (SceneElement α) :=
  match e.transition with
  | none => some e
  | some t =>
    let t := { t with elapsed := t.elapsed + ms }
    let share := t.progress
    let visual := t.source.interpolate t.goal share
    if Scalar.le Scalar.one share then
      if e.exiting then none else some { e with visual := visual, transition := none }
    else some { e with visual := visual, transition := some t }

end SceneElement

/-- The elements in the order of drawing, and the clock in milliseconds. -/
structure Scene (α : Type) where
  elements : List (SceneElement α)
  clock : α

namespace Scene

variable {α : Type}

/-- The element with the given key. -/
def get? (s : Scene α) (key : ElementKey) : Option (SceneElement α) :=
  s.elements.find? (·.key == key)

/-- Some transition is running. -/
def isAnimating (s : Scene α) : Bool := s.elements.any (·.isAnimating)

/-- Puts an element with a new key at its place in the order of drawing. -/
def place (e : SceneElement α) : List (SceneElement α) → List (SceneElement α)
  | [] => [e]
  | other :: rest => if e.key.before other.key then e :: other :: rest else other :: place e rest

/-- The scene with one element changed. -/
def modify (s : Scene α) (key : ElementKey) (f : SceneElement α → SceneElement α) : Scene α :=
  { s with elements := s.elements.map fun e => if e.key == key then f e else e }

/-- The scene with one more element. -/
def add (s : Scene α) (e : SceneElement α) : Scene α := { s with elements := place e s.elements }

variable [Scalar α]

/-- The scene without elements. -/
def empty : Scene α := ⟨[], Scalar.zero⟩

/-! ### Directives -/

/-- Carries out one directive.  An element that was about to go and is created again goes on from
where it is; an update for an unknown element places it at once. -/
def apply (s : Scene α) : Directive α → Scene α
  | .create key source goal duration =>
    match s.get? key with
    | some _ => s.modify key fun e =>
        { e with exiting := false, visual := e.visual.withOpacity Scalar.one }.begin goal duration
    | none => s.add (SceneElement.begin { key := key, visual := source } goal duration)
  | .update key goal duration =>
    match s.get? key with
    | some _ => s.modify key fun e => { e with exiting := false }.begin goal duration
    | none => s.add { key := key, visual := goal }
  | .remove key toward duration =>
    s.modify key fun e =>
      { e with exiting := true }.begin (e.visual.collapsedToward toward) duration

/-- Moves the clock forward; time does not run backwards. -/
def advance (s : Scene α) (ms : α) : Scene α :=
  let ms := Scalar.max ms Scalar.zero
  ⟨s.elements.filterMap (SceneElement.advance ms), s.clock + ms⟩

/-- Starts the transitions of a pass; those that take no time are over at once. -/
def applyPass (s : Scene α) (pass : Pass α) : Scene α :=
  (pass.foldl apply s).advance Scalar.zero

/-- What is reported about a directive that is about to be carried out. -/
def event? (s : Scene α) : Directive α → Option Event
  | .create key .. => (s.get? key).map fun _ => .elementRevived key.id
  | .update key .. => if (s.get? key).isSome then none else some (.elementPlaced key.id)
  | .remove .. => none

/-- What is reported about a pass that is about to be applied. -/
def events (s : Scene α) : Pass α → List Event
  | [] => []
  | d :: pass => (s.event? d).toList ++ events (s.apply d) pass

/-! ### Rest -/

/-- The longest time that is left to some transition. -/
def longestRemaining (s : Scene α) : α :=
  (s.elements.filterMap fun e => e.transition.map (·.remaining)).foldl Scalar.max Scalar.zero

/-- Advances up to `rounds` times, each time as far as the longest transition asks for. -/
def settleWithin (s : Scene α) : (rounds : Nat) → Scene α
  | 0 => s
  | rounds + 1 =>
    if s.isAnimating then
      (s.advance (Scalar.max s.longestRemaining Scalar.one)).settleWithin rounds
    else s

/-- Runs every transition to its end.  One round is enough up to rounding errors, which the second
round makes up for. -/
def settle (s : Scene α) : Scene α := s.settleWithin (s.elements.length + 2)

end Scene

end FlowTree
