import FlowTree.Json.Source

/-!
# How values nest

The nesting of arrays and objects is found by an automaton that takes one token at a time and keeps
the open brackets.

* **`Nesting.step`** is its step; **`Nesting.value`** closes what is still open when the text
  breaks.
* **`Source.ofTokens`** is the value of a list of tokens, with a note if something follows it.
-/

namespace FlowTree.Json

/-- A bracket, a separator, or something without parts.  A word may serve as a value, as the name
of a field, or as either. -/
inductive Token (ν : Type) where
  | openArray (wideStart : Bool)
  | closeArray
  | openObject (wideStart : Bool)
  | closeObject
  | comma
  | colon
  | atom (value : Option (Source ν)) (name : Option SourceText)
  | fault (f : Fault)

namespace Nesting

variable {ν : Type}

/-- An object without its brackets, the last field first. -/
structure OpenObject (ν : Type) where
  wideStart : Bool
  fields : List (SourceText × Source ν)

/-- An open bracket with the parts that are complete, the last one first. -/
inductive Frame (ν : Type) where
  | array (wideStart : Bool) (items : List (Source ν))
  | object (o : OpenObject ν) (name : SourceText)

/-- What the automaton waits for. -/
inductive Wait (ν : Type) where
  /-- A value; the bracket may close instead if `orClose`. -/
  | value (orClose : Bool)
  /-- The name of a field of the innermost object; the bracket may close instead if `orClose`. -/
  | name (o : OpenObject ν) (orClose : Bool)
  /-- The colon after a name. -/
  | colon
  /-- A separator or the end of the innermost bracket. -/
  | next
  /-- Nothing: the value is complete. -/
  | done (s : Source ν)
  /-- Nothing: something follows the complete value. -/
  | trailing (s : Source ν)
  /-- Nothing: the text is broken, and this is what it holds. -/
  | failed (s : Source ν)

/-- The open brackets, the innermost one first, and what is waited for.  While a name is waited
for, the innermost object is not among the frames. -/
structure State (ν : Type) where
  frames : List (Frame ν)
  wait : Wait ν

/-- The start: one value. -/
def start : State ν := ⟨[], .value false⟩

/-- The object with one more field. -/
def OpenObject.add (o : OpenObject ν) (name : SourceText) (s : Source ν) : OpenObject ν :=
  { o with fields := (name, s) :: o.fields }

/-- The object with its brackets. -/
def OpenObject.value (o : OpenObject ν) (finish : Finish) : Source ν :=
  .object o.fields.reverse ⟨o.wideStart, finish⟩

/-- The array of the given items, the last one first. -/
def arrayValue (wideStart : Bool) (items : List (Source ν)) (finish : Finish) : Source ν :=
  .array items.reverse ⟨wideStart, finish⟩

/-- Puts a value into the open brackets and breaks them all off. -/
def breakOff (f : Fault) : Source ν → List (Frame ν) → Source ν
  | s, [] => s
  | s, .array wide items :: rest => breakOff f (arrayValue wide (s :: items) (.broken f)) rest
  | s, .object o name :: rest => breakOff f ((o.add name s).value (.broken f)) rest

/-- Breaks off where a part of the innermost bracket is complete. -/
def breakNext (f : Fault) : List (Frame ν) → Source ν
  | [] => .broken f
  | .array wide items :: rest => breakOff f (arrayValue wide items (.broken f)) rest
  | .object o _ :: rest => breakOff f (o.value (.broken f)) rest

/-- Breaks off where the name of a field is missing. -/
def breakName (f : Fault) (frames : List (Frame ν)) (o : OpenObject ν) : Source ν :=
  if o.fields.isEmpty then breakOff f (o.value (.broken f)) frames
  else breakOff f ((o.add ⟨[], some f, false⟩ (.broken f)).value (.broken f)) frames

/-- The state after a complete value. -/
def complete (s : Source ν) : List (Frame ν) → State ν
  | [] => ⟨[], .done s⟩
  | .array wide items :: rest => ⟨.array wide (s :: items) :: rest, .next⟩
  | .object o name :: rest => ⟨.object (o.add name s) name :: rest, .next⟩

/-- What stands in place of a value if it is no value. -/
def noValue : Token ν → Source ν
  | .fault f => .brokenWord f
  | _ => .broken .malformed

/-- The state after one more token.  `lenient` dialects allow a comma before a closing bracket. -/
def step (lenient : Bool) (st : State ν) (t : Token ν) : State ν :=
  match st.wait, t with
  | .value _, .openArray wide => ⟨.array wide [] :: st.frames, .value true⟩
  | .value _, .openObject wide => ⟨st.frames, .name ⟨wide, []⟩ true⟩
  | .value true, .closeArray =>
    match st.frames with
    | .array wide items :: rest => complete (arrayValue wide items .closed) rest
    | _ => ⟨[], .failed (breakOff .malformed (.broken .malformed) st.frames)⟩
  | .value _, .atom (some s) _ => complete s st.frames
  | .value _, t => ⟨[], .failed (breakOff .malformed (noValue t) st.frames)⟩
  | .name o _, .atom _ (some name) => ⟨.object o name :: st.frames, .colon⟩
  | .name o true, .closeObject => complete (o.value .closed) st.frames
  | .name o _, _ => ⟨[], .failed (breakName .malformed st.frames o)⟩
  | .colon, .colon => ⟨st.frames, .value false⟩
  | .colon, _ => ⟨[], .failed (breakOff .malformed (.broken .malformed) st.frames)⟩
  | .next, .comma =>
    match st.frames with
    | .object o _ :: rest => ⟨rest, .name o lenient⟩
    | frames => ⟨frames, .value lenient⟩
  | .next, .closeArray =>
    match st.frames with
    | .array wide items :: rest => complete (arrayValue wide items .closed) rest
    | frames => ⟨[], .failed (breakNext .malformed frames)⟩
  | .next, .closeObject =>
    match st.frames with
    | .object o _ :: rest => complete (o.value .closed) rest
    | frames => ⟨[], .failed (breakNext .malformed frames)⟩
  | .next, _ => ⟨[], .failed (breakNext .malformed st.frames)⟩
  | .done s, _ => ⟨[], .trailing s⟩
  | .trailing s, _ => ⟨[], .trailing s⟩
  | .failed s, _ => ⟨[], .failed s⟩

/-- What the tokens hold when there are no more of them. -/
def value (st : State ν) : Source ν :=
  match st.wait with
  | .value _ | .colon => breakOff .cutOff (.broken .cutOff) st.frames
  | .name o _ => breakName .cutOff st.frames o
  | .next => breakNext .cutOff st.frames
  | .done s | .trailing s | .failed s => s

/-- Something follows the complete value. -/
def isTrailing (st : State ν) : Bool :=
  match st.wait with
  | .trailing _ => true
  | _ => false

end Nesting

namespace Source

variable {ν : Type}

/-- The value of a list of tokens, and whether something follows it. -/
def ofTokens (lenient : Bool) (tokens : List (Token ν)) : Source ν × Bool :=
  let st := tokens.foldl (Nesting.step lenient) Nesting.start
  (Nesting.value st, Nesting.isTrailing st)

end Source

end FlowTree.Json
