import Mathlib.Data.List.Pairwise
import ScriptCompiler.Proofs.Hoisting.Agreement

/-!
# A machine that keeps a record

On this machine nothing is computed.  A value says how it came about, and the heap is the list of
all steps so far, so runs that end with the same heap made the same steps, on the same values, in
the same order.  Any difference in the order of evaluation shows.

A context is grounded on the machine as soon as its variables have different names, none of which
could be that of a temporary, and the program names no types (`grounded_recorder`).  The context
`Context.sample` is small but has a variable of each kind and a member of each form.
-/

namespace ScriptCompiler

namespace Machine

/-- A value as the way in which it came about. -/
inductive Term where
  | null
  | boolean (value : Bool)
  | number (value : Double)
  | string (value : String)
  | this
  | type (id : TypeId)
  | constructor (id : MemberId)
  | function
  | cell (index : ℕ)
  /-- What the step with this number yielded. -/
  | result (index : ℕ)
  | unary (op : Script.UnaryOp) (operand : Term)
  | binary (op : Script.BinaryOp) (left right : Term)
deriving DecidableEq

/-- A step that changes or may change the heap, with the values that it was made on. -/
inductive Event where
  | getField (object : Term) (name : String)
  | setField (object : Term) (name : String) (value : Term)
  | getElement (object key : Term)
  | setElement (object key value : Term)
  | call (object : Term) (name : String) (arguments : List Term)
  | invoke (target : Term) (arguments : List Term)
  | construct (constructor : Term) (arguments : List Term)
  | array (items : List Term)
  | object (fields : List (String × Term))
deriving DecidableEq

namespace Term

/-- Null and the constant for false count as false. -/
def truthy : Term → Bool
  | .null => false
  | .boolean value => value
  | _ => true

/-- The container that a term refers to. -/
def cell? : Term → Option ℕ
  | .cell index => some index
  | _ => none

/-- The term for an operator, apart from the test for null. -/
def combine (op : Script.BinaryOp) (left right : Term) : Term :=
  match op, right with
  | .equal, .null => .boolean (left == .null)
  | _, _ => .binary op left right

end Term

/-- Puts a step on record; the result is named by its position. -/
def record (e : Event) : Action Term (List Event) := fun s =>
  (.result s.heap.length, { s with heap := s.heap ++ [e] })

/-- The machine that keeps a record, for the constructors and containers of a context. -/
def recorder (c : Lowering.Context) : Primitives Term (List Event) where
  null := .null
  ofBool := .boolean
  number := .number
  string := .string
  this := .this
  global := fun _ => none
  typeValue := .type
  constructorValue := fun id =>
    match c.program.member? id, c.naming.form? c.program id with
    | some m, some (.constructor none) => .type m.declaringType
    | _, _ => .constructor id
  function := fun _ => .function
  cell := .cell
  cell? := Term.cell?
  containerField := c.options.referenceField
  truthy := Term.truthy
  isNull := (· == .null)
  getField := fun object name => record (.getField object name)
  setField := fun object name value s => (record (.setField object name value) s).2
  getElement := fun object key => record (.getElement object key)
  setElement := fun object key value s => (record (.setElement object key value) s).2
  call := fun object name arguments => record (.call object name arguments)
  invoke := fun target arguments => record (.invoke target arguments)
  construct := fun constructor arguments => record (.construct constructor arguments)
  array := fun items => record (.array items)
  object := fun fields => record (.object fields)
  unary := fun op v s => (if op = .not then .boolean (!v.truthy) else .unary op v, s)
  binary := fun op v w s => (Term.combine op v w, s)
  truthy_ofBool := fun _ => rfl
  cell?_cell := fun _ => rfl
  unary_not := fun _ _ => rfl
  equal_null := fun _ _ => rfl

end Machine

namespace Lowering

open Machine

section

variable {c : Context}

/-- Different names that are not those of temporaries, and no types, ground a context. -/
lemma grounded_recorder (hnames : c.scope.entries.Pairwise fun a b => a.2.name ≠ b.2.name)
    (htemporary : ∀ e ∈ c.scope.entries, ¬ c.options.temporaryPrefix.toList <+: e.2.name.toList)
    (htypes : ∀ id, c.naming.typeName? c.program id = none) : Grounded (recorder c) c where
  distinct := by
    intro i j x hi hj
    obtain ⟨v, hv, -, hvx⟩ := hi.mem_entries
    obtain ⟨w, hw, -, hwx⟩ := hj.mem_entries
    by_contra hij
    have hsym : Std.Symm fun a b : VariableId × Variable => a.2.name ≠ b.2.name :=
      ⟨fun _ _ h => h.symm⟩
    exact hnames.forall hv hw (fun h => hij (congrArg Prod.fst h)) (hvx.trans hwx.symm)
  not_temporary := by
    rintro i x n hx rfl
    obtain ⟨v, hv, -, hvx⟩ := hx.mem_entries
    refine htemporary (i, v) hv ⟨(toString n).toList, ?_⟩
    rw [hvx, Context.temporaryName, String.toList_append]
  not_global := fun _ => rfl
  temporary_not_global := fun _ => rfl
  containerField := rfl
  type := by
    intro id name hname
    rw [htypes id] at hname
    cases hname
  constructor := by
    intro id m hm hform
    simp only [recorder, hm, hform]
  namedConstructor := by
    intro id m name type _ _ htype
    rw [htypes m.declaringType] at htype
    cases htype

end

/-- Three variables, one of them in a container, and members behind accessors, in a field and
called as methods. -/
def Context.sample : Context where
  naming := { memberForms := [(⟨0⟩, .property "get_size" "set_size"),
    (⟨1⟩, .property "get_item" "set_item"), (⟨2⟩, .method "use"), (⟨3⟩, .field "count")] }
  scope := { entries := [(⟨0⟩, { name := "a" }), (⟨1⟩, { name := "b" }),
    (⟨2⟩, { name := "r", byReference := true })] }

/-- The sample is grounded. -/
lemma grounded_sample : Grounded (recorder .sample) .sample :=
  grounded_recorder (by decide) (by decide) fun id => rfl

/-- A memory for the variables of the sample: a number, an object and a container. -/
def sampleMemory : Memory VariableId Term (List Event) where
  vars id := if id.index = 0 then .number .zero else if id.index = 1 then .this else .cell 0
  store := { cells := [.number .zero], heap := [] }

end Lowering

end ScriptCompiler
