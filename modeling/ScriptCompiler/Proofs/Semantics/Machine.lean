import Mathlib.Logic.Function.Basic
import Mathlib.Logic.Relator
import Mathlib.Tactic.Common
import ScriptCompiler.Script.Tree
import ScriptCompiler.Source.Tree

/-!
# The machine under source and script

The source and the script are run on one machine.  Its memory holds the variables and, behind
them, a store: containers with one value each and a heap nothing is known about.  What a field
access, a call or an operator does is left open: `Primitives` collects these steps as arbitrary
total changes of the store, which both languages share.  A primitive never sees a variable.

A `Slot` is an assignable location whose sub-expressions have been evaluated.  Reading, writing and
updating a slot mean the same in both languages; only the names of their variables differ.
-/

namespace ScriptCompiler.Machine

/-- What lies behind the variables: the values of the containers, in order of creation, and the
heap. -/
structure Store (V H : Type*) where
  cells : List V
  heap : H

/-- The variables, called by names of type `N`, and the store. -/
structure Memory (N V H : Type*) where
  vars : N → V
  store : Store V H

/-- A step that reads and changes the store and yields a value. -/
abbrev Action (V H : Type*) := Store V H → V × Store V H

namespace Memory

variable {N V H : Type*}

/-- Performs a step on the store. -/
def act (m : Memory N V H) (a : Action V H) : V × Memory N V H :=
  ((a m.store).1, { m with store := (a m.store).2 })

/-- Changes the store. -/
def change (m : Memory N V H) (f : Store V H → Store V H) : Memory N V H :=
  { m with store := f m.store }

/-- Gives a variable a value. -/
def set [DecidableEq N] (m : Memory N V H) (x : N) (v : V) : Memory N V H :=
  { m with vars := Function.update m.vars x v }

@[simp] lemma act_vars (m : Memory N V H) (a : Action V H) : (m.act a).2.vars = m.vars := rfl

@[simp] lemma set_self [DecidableEq N] (m : Memory N V H) (x : N) (v : V) :
    (m.set x v).vars x = v := by
  simp [set]

lemma set_of_ne [DecidableEq N] (m : Memory N V H) {x y : N} (h : y ≠ x) (v : V) :
    (m.set x v).vars y = m.vars y := by
  simp [set, h]

end Memory

/-- The values and the steps that source and script share.

Two tests have a fixed meaning, because lazy operators and branches rest on them: `!v` and
`v == null`. -/
structure Primitives (V H : Type*) where
  null : V
  ofBool : Bool → V
  number : Double → V
  string : String → V
  /-- The current object. -/
  this : V
  /-- The value of a name that means the same in every memory. -/
  global : String → Option V
  /-- The object that stands for a type. -/
  typeValue : TypeId → V
  /-- The object that a constructor is called on. -/
  constructorValue : MemberId → V
  /-- The value of a function expression; its body is not run here. -/
  function : Script.Expr → V
  /-- The reference to a container. -/
  cell : ℕ → V
  /-- The container that a value refers to. -/
  cell? : V → Option ℕ
  /-- The field under which a container keeps its value. -/
  containerField : String
  /-- Whether a value counts as true in a test. -/
  truthy : V → Bool
  /-- Whether a value counts as missing. -/
  isNull : V → Bool
  getField : V → String → Action V H
  setField : V → String → V → Store V H → Store V H
  getElement : V → V → Action V H
  setElement : V → V → V → Store V H → Store V H
  /-- Calls a method of an object: accessors are methods too. -/
  call : V → String → List V → Action V H
  /-- Calls a function value. -/
  invoke : V → List V → Action V H
  construct : V → List V → Action V H
  array : List V → Action V H
  object : List (String × V) → Action V H
  unary : Script.UnaryOp → V → Action V H
  binary : Script.BinaryOp → V → V → Action V H
  truthy_ofBool : ∀ b, truthy (ofBool b) = b
  cell?_cell : ∀ a, cell? (cell a) = some a
  unary_not : ∀ v s, unary .not v s = (ofBool (!truthy v), s)
  equal_null : ∀ v s, binary .equal v null s = (ofBool (isNull v), s)

namespace Primitives

variable {V H : Type*} (P : Primitives V H)

/-- The number one. -/
def one : V := P.number (Double.ofNat 1)

/-- The container behind field `name` of an object, if the field is that of a container. -/
def containerOf (object : V) (name : String) : Option ℕ :=
  if name = P.containerField then P.cell? object else none

/-- Reads a field.  The field of a container yields the value that the container holds. -/
def readMember (object : V) (name : String) : Action V H := fun s =>
  match P.containerOf object name with
  | some a => (s.cells.getD a P.null, s)
  | none => P.getField object name s

/-- Writes a field.  The field of a container takes the place of the value that it holds. -/
def writeMember (object : V) (name : String) (value : V) (s : Store V H) : Store V H :=
  match P.containerOf object name with
  | some a => { s with cells := s.cells.set a value }
  | none => P.setField object name value s

/-- Creates a container that holds `value`. -/
def newCell (value : V) : Action V H := fun s =>
  (P.cell s.cells.length, { s with cells := s.cells ++ [value] })

/-- Creates an object from its fields; a single field that is the field of containers makes a
container. -/
def newObject (fields : List (String × V)) : Action V H :=
  match fields with
  | [(name, value)] =>
    if name = P.containerField then P.newCell value else P.object [(name, value)]
  | fields => P.object fields

end Primitives

/-- An assignable location whose sub-expressions have been evaluated. -/
inductive Slot (N V : Type*) where
  | var (x : N)
  | member (object : V) (name : String)
  | element (object key : V)
  /-- A property or indexer behind two methods. -/
  | accessor (object : V) (getter setter : String) (arguments : List V)
  /-- Not a location at all. -/
  | nowhere

namespace Slot

variable {N V H : Type*} [DecidableEq N] (P : Primitives V H)

/-- The value of a slot. -/
def read : Slot N V → Memory N V H → V × Memory N V H
  | .var x, m => (m.vars x, m)
  | .member object name, m => m.act (P.readMember object name)
  | .element object key, m => m.act (P.getElement object key)
  | .accessor object getter _ arguments, m => m.act (P.call object getter arguments)
  | .nowhere, m => (P.null, m)

/-- Writes a value to a slot. -/
def write : Slot N V → V → Memory N V H → Memory N V H
  | .var x, v, m => m.set x v
  | .member object name, v, m => m.change (P.writeMember object name v)
  | .element object key, v, m => m.change (P.setElement object key v)
  | .accessor object _ setter arguments, v, m =>
    (m.act (P.call object setter (arguments ++ [v]))).2
  | .nowhere, _, m => m

/-- Adds one to the value of a slot or takes one away: yields the value before and the value
after. -/
def update (op : Script.BinaryOp) (l : Slot N V) (m : Memory N V H) :
    (V × V) × Memory N V H :=
  let old := l.read P m
  let new := old.2.act (P.binary op old.1 P.one)
  ((old.1, new.1), l.write P new.1 new.2)

/-- Reads a slot, then evaluates `operand`, then writes what `combine` makes of the two. -/
def modify (combine : V → V → Action V H) (operand : Memory N V H → V × Memory N V H)
    (l : Slot N V) (m : Memory N V H) : V × Memory N V H :=
  let old := l.read P m
  let value := operand old.2
  let new := value.2.act (combine old.1 value.1)
  (new.1, l.write P new.1 new.2)

omit [DecidableEq N] in
/-- Reading a slot changes no variable. -/
@[simp] lemma read_vars (l : Slot N V) (m : Memory N V H) : (l.read P m).2.vars = m.vars := by
  cases l <;> rfl

/-- Writing a slot changes no variable but the one it is. -/
lemma write_vars {l : Slot N V} {x : N} (h : l ≠ .var x) (v : V) (m : Memory N V H) :
    (l.write P v m).vars x = m.vars x := by
  cases l with
  | var y =>
    have hne : x ≠ y := fun hxy => h (by rw [hxy])
    exact m.set_of_ne hne v
  | member => rfl
  | element => rfl
  | accessor => rfl
  | nowhere => rfl

end Slot

/-! ## Memories that agree

Two memories agree over a relation `φ` of their variables if they have the same store and related
variables have the same value.  Every step of the machine keeps the agreement. -/

section Agree

variable {N N' V H : Type*}

/-- The memories have the same store, and variables related by `φ` have the same value. -/
structure Agree (φ : N → N' → Prop) (m : Memory N V H) (t : Memory N' V H) : Prop where
  store : t.store = m.store
  vars : ∀ {x y}, φ x y → t.vars y = m.vars x

/-- The same slot in two memories: variables correspond by `φ`, the rest is equal. -/
inductive Slot.Same (φ : N → N' → Prop) : Slot N V → Slot N' V → Prop
  | var {x : N} {y : N'} : φ x y → Same φ (.var x) (.var y)
  | member (object : V) (name : String) : Same φ (.member object name) (.member object name)
  | element (object key : V) : Same φ (.element object key) (.element object key)
  | accessor (object : V) (getter setter : String) (arguments : List V) :
      Same φ (.accessor object getter setter arguments) (.accessor object getter setter arguments)
  | nowhere : Same φ .nowhere .nowhere

variable {φ : N → N' → Prop} {m : Memory N V H} {t : Memory N' V H} {l : Slot N V} {l' : Slot N' V}

/-- The same member slot belongs to the same object. -/
lemma Slot.Same.object_eq {object object' : V} {name name' : String}
    (h : Slot.Same φ (.member object name) (.member object' name')) : object' = object := by
  cases h
  rfl

/-- A step on the store yields the same value and keeps the agreement. -/
lemma Agree.act (h : Agree φ m t) (a : Action V H) :
    (t.act a).1 = (m.act a).1 ∧ Agree φ (m.act a).2 (t.act a).2 := by
  refine ⟨?_, ?_, h.vars⟩
  · simp only [Memory.act, h.store]
  · simp only [Memory.act, h.store]

/-- A change of the store keeps the agreement. -/
lemma Agree.change (h : Agree φ m t) (f : Store V H → Store V H) :
    Agree φ (m.change f) (t.change f) :=
  ⟨by simp only [Memory.change, h.store], h.vars⟩

/-- Giving related variables the same value keeps the agreement, if they are related to no other
variable. -/
lemma Agree.set [DecidableEq N] [DecidableEq N'] (h : Agree φ m t) (hφ : Relator.BiUnique φ)
    {x : N} {y : N'} (hxy : φ x y) (v : V) : Agree φ (m.set x v) (t.set y v) := by
  refine ⟨h.store, fun {x' y'} hxy' => ?_⟩
  by_cases hx : x' = x
  · subst hx
    have hy : y' = y := hφ.2 hxy' hxy
    subst hy
    rw [Memory.set_self, Memory.set_self]
  · have hy : y' ≠ y := fun hy => hx (hφ.1 hxy' (hy ▸ hxy))
    rw [Memory.set_of_ne _ hy, Memory.set_of_ne _ hx]
    exact h.vars hxy'

/-- The same slot yields the same value. -/
lemma Agree.read (P : Primitives V H) (h : Agree φ m t) (hl : Slot.Same φ l l') :
    (l'.read P t).1 = (l.read P m).1 ∧ Agree φ (l.read P m).2 (l'.read P t).2 := by
  cases hl with
  | var hxy => exact ⟨h.vars hxy, h⟩
  | member => exact h.act _
  | element => exact h.act _
  | accessor => exact h.act _
  | nowhere => exact ⟨rfl, h⟩

/-- Writing a value to the same slot keeps the agreement. -/
lemma Agree.write [DecidableEq N] [DecidableEq N'] (P : Primitives V H) (h : Agree φ m t)
    (hφ : Relator.BiUnique φ) (hl : Slot.Same φ l l') (v : V) :
    Agree φ (l.write P v m) (l'.write P v t) := by
  cases hl with
  | var hxy => exact h.set hφ hxy v
  | member => exact h.change _
  | element => exact h.change _
  | accessor => exact (h.act _).2
  | nowhere => exact h

/-- Updating the same slot yields the same values and keeps the agreement. -/
lemma Agree.update [DecidableEq N] [DecidableEq N'] (P : Primitives V H) (h : Agree φ m t)
    (hφ : Relator.BiUnique φ) (hl : Slot.Same φ l l') (op : Script.BinaryOp) :
    (l'.update P op t).1 = (l.update P op m).1 ∧
      Agree φ (l.update P op m).2 (l'.update P op t).2 := by
  obtain ⟨hold, h₁⟩ := h.read P hl
  obtain ⟨hnew, h₂⟩ := h₁.act (P.binary op (l.read P m).1 P.one)
  simp only [Slot.update, hold, hnew]
  exact ⟨trivial, h₂.write P hφ hl _⟩

/-- So does modifying it, if the operand has the same value in memories that agree. -/
lemma Agree.modify [DecidableEq N] [DecidableEq N'] (P : Primitives V H) (h : Agree φ m t)
    (hφ : Relator.BiUnique φ) (hl : Slot.Same φ l l') (combine : V → V → Action V H)
    {f : Memory N V H → V × Memory N V H} {f' : Memory N' V H → V × Memory N' V H}
    (hf : ∀ {m t}, Agree φ m t → (f' t).1 = (f m).1 ∧ Agree φ (f m).2 (f' t).2) :
    (l'.modify P combine f' t).1 = (l.modify P combine f m).1 ∧
      Agree φ (l.modify P combine f m).2 (l'.modify P combine f' t).2 := by
  obtain ⟨hold, h₁⟩ := h.read P hl
  obtain ⟨hv, h₂⟩ := hf h₁
  obtain ⟨hnew, h₃⟩ := h₂.act (combine (l.read P m).1 (f (l.read P m).2).1)
  simp only [Slot.modify, hold, hv, hnew]
  exact ⟨trivial, h₃.write P hφ hl _⟩

end Agree

end ScriptCompiler.Machine
