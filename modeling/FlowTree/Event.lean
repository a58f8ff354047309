/-!
# Events

What a diagram and a scene report while they work, as data.

* **`Event.level`**, **`Event.message`** and **`Event.fields`** give the record of an event.
-/

namespace FlowTree

/-- How much an event matters. -/
inductive Level where
  | warn
  | debug
  | trace
  deriving DecidableEq, Repr

/-- A report. -/
inductive Event where
  | initialDateMissing (requested fallback : String)
  | edgeKeyWithoutValues (key : String)
  | runSwitched (source goal : Nat)
  | branchCollapsed (node : String)
  | branchExpanded (node : String)
  | leafToggled (node : String)
  | reconciled (entering updating exiting dateIndex : Nat)
  | restyled (edgeKey nodeKey : String) (elements : Nat)
  | elementRevived (id : String)
  | elementPlaced (id : String)
  deriving DecidableEq, Repr

namespace Event

/-- How much the event matters: a wrong wish of the caller more than a change, and a change more
than the fate of one element. -/
def level : Event → Level
  | initialDateMissing .. | edgeKeyWithoutValues .. => .warn
  | elementRevived .. | elementPlaced .. => .trace
  | _ => .debug

/-- The event in words. -/
def message : Event → String
  | initialDateMissing .. => "initial date not found, showing the first date instead"
  | edgeKeyWithoutValues .. => "edge attribute has no observed values"
  | runSwitched .. => "switching group tree run"
  | branchCollapsed .. => "collapsed branch"
  | branchExpanded .. => "expanded branch"
  | leafToggled .. => "toggled a leaf, nothing to do"
  | reconciled .. => "reconciled group tree"
  | restyled .. => "restyled group tree"
  | elementRevived .. => "revived exiting element"
  | elementPlaced .. => "update for unknown element, placing directly"

/-- The particulars of the event. -/
def fields : Event → List (String × String)
  | initialDateMissing requested fallback => [("requested", requested), ("fallback", fallback)]
  | edgeKeyWithoutValues key => [("key", key)]
  | runSwitched source goal => [("from", toString source), ("to", toString goal)]
  | branchCollapsed node | branchExpanded node | leafToggled node => [("node", node)]
  | reconciled entering updating exiting dateIndex =>
    [("entering", toString entering), ("updating", toString updating),
      ("exiting", toString exiting), ("date_index", toString dateIndex)]
  | restyled edgeKey nodeKey elements =>
    [("edge_key", edgeKey), ("node_key", nodeKey), ("elements", toString elements)]
  | elementRevived id | elementPlaced id => [("id", id)]

end Event

end FlowTree
