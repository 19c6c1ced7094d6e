import ScriptCompiler.Proofs.ControlFlow.Constructs
import ScriptCompiler.Proofs.Images.Counting

/-!
# Values keep what they are given

The marks and the images of the operands are followed through every operation of lowering.  If an
operation reports nothing, its result `Holds` what the operands hold and what the construct itself
adds: every mark at least as often, and every image exactly as often.

Capturing a value moves its images into a statement in front, unless the value is stable: then they
stay where the value is used (`StandsFor`).  So an operation writes an image twice only if it uses a
stable value twice.

Only an indexer can lose something in silence.  Where it is an element of its object or a field, the
script has no place for further arguments, and they are left out together with their effects.  So
the statements ask that every indexer `KeepsArguments`.
-/

namespace ScriptCompiler.Lowering

open Script (Image exprsMarks stmtsMarks exprsImages stmtsImages)
open Source (Node Argument)

/-- The marks of a value and of the statements in front of it. -/
@[grind =]
def Lowered.marks (l : Lowered) : List Mark :=
  stmtsMarks l.before ++ l.value.marks

/-- The marks of operands and of the statements in front of them. -/
@[grind =]
def Operands.marks (o : Operands) : List Mark :=
  stmtsMarks o.before ++ exprsMarks o.values

/-- An indexer of `count` arguments finds a place for all of them in the script. -/
def Context.KeepsArguments (c : Context) (id : MemberId) (count : Nat) : Prop :=
  match c.formOf id with
  | .nativeIndexer => count ≤ 1
  | .field _ | .fieldProperty _ => count = 0
  | _ => True

/-- A property has no arguments to lose. -/
lemma Context.keepsArguments_zero (c : Context) (id : MemberId) : c.KeepsArguments id 0 := by
  unfold Context.KeepsArguments
  split <;> simp

/-- Every argument of the expression finds its place, if it is an indexer. -/
def IndexerKeeps (c : Context) : Source.Expr → Prop
  | .indexer _ _ id arguments => c.KeepsArguments id arguments.length
  | _ => True

/-- Every argument of the node itself finds its place; an assignment has those of its target. -/
def NodeKeeps (c : Context) : Node → Prop
  | .expr (.assign _ _ target _) | .expr (.increment _ _ target) => IndexerKeeps c target
  | .expr e => IndexerKeeps c e
  | .stmt _ => True

variable (c : Context) (fields : String → Bool) (m : Mark) (p : Image → Bool)

/-- The images of a value and of the statements in front of it. -/
@[grind =]
def Lowered.images (l : Lowered) : List Image :=
  stmtsImages fields l.before ++ l.value.images fields

/-- The images of operands and of the statements in front of them. -/
@[grind =]
def Operands.images (o : Operands) : List Image :=
  stmtsImages fields o.before ++ exprsImages fields o.values

/-- The images that are written again wherever several stable values are used. -/
@[grind =]
def stableImages (values : List Script.Expr) : List Image :=
  values.flatMap (·.stableImages fields)

/-- The script holds the mark at least as often, and the images exactly as often. -/
abbrev Holds (marks : List Mark) (images : List Image) (marks' : List Mark)
    (images' : List Image) : Prop :=
  marks.count m ≤ marks'.count m ∧ images'.countP p = images.countP p

/-- `v` stands for `e` once `e` has been captured. -/
structure StandsFor (e v : Script.Expr) : Prop where
  images : v.images fields = e.stableImages fields
  stable : v.stableImages fields = e.stableImages fields
  isValue : e.IsValue fields → v.IsValue fields

/-- The images of `e` are in front of the value, apart from those that are written wherever the
value is used. -/
structure Captured (e : Script.Expr) (l : Lowered) : Prop where
  marks : e.marks.count m ≤ l.marks.count m
  count : (stmtsImages fields l.before).countP p + (e.stableImages fields).countP p =
    (e.images fields).countP p
  standsFor : StandsFor fields e l.value

/-- The same of several values. -/
structure AllCaptured (values : List Script.Expr) (o : Operands) : Prop where
  marks : (exprsMarks values).count m ≤ o.marks.count m
  count : (stmtsImages fields o.before).countP p + (stableImages fields values).countP p =
    (exprsImages fields values).countP p
  standsFor : List.Forall₂ (StandsFor fields) values o.values

/-- The value is what is left of the expression: if a function, then the one that the expression
yields. -/
structure Settles (e : Source.Expr) (v : Script.Expr) : Prop where
  count : (v.stableImages fields).countP p =
    (functionsWritten c fields (c.yields e).toList).countP p
  isValue : v.IsValue fields

/-- The operands are what is left of the expressions. -/
abbrev AllSettle (es : List Source.Expr) (values : List Script.Expr) : Prop :=
  List.Forall₂ (Settles c fields p) es values

/-- The value holds the mark and has these images, and none of them is written again where it is
used. -/
abbrev Makes (marks : List Mark) (images : List Image) (v : Script.Expr) : Prop :=
  marks.count m ≤ v.marks.count m ∧ v.images fields = images ∧ v.stableImages fields = [] ∧
    v.IsValue fields

/-- An expression around its operands adds what it holds itself and what becomes of the functions
that it copies. -/
structure Completed (e : Source.Expr) (important : Bool) (operands : Operands) (l : Lowered) :
    Prop where
  holds : Holds m p (exprOwn c e ++ operands.marks)
    (exprImages c fields e ++ functionsWritten c fields (c.copiedBy important e) ++
      operands.images fields) l.marks (l.images fields)
  settles : important = true → Settles c fields p e l.value

attribute [grind =] hasAccessors readMarks loadMarks Operands.first Operands.rest
  functionsWritten Image.ofCallee

/-! ## Small operations -/

lemma emits_newTemporary : Emits (newTemporary c) fun _ => True :=
  fun _ => ⟨[], (List.append_nil _).symm, fun _ => trivial⟩

/-- What is asked for is there if nothing is reported. -/
lemma emits_require {α : Type} [Inhabited α] (o : Option α) :
    Emits (require o) fun a => a = o.getD default := by
  intro s
  cases o <;> exact ⟨[], (List.append_nil _).symm, fun _ => rfl⟩

/-- An unexpected form is reported. -/
lemma emits_unexpectedForm (id : MemberId) (form : MemberForm) :
    Emits (unexpectedForm c id form) fun _ => False :=
  (emits_require _).bind fun _ => emits_report _ _ _

/-- An announced target that is not reported can be assigned. -/
lemma emits_announce (e : Source.Expr) : Emits (announce e) fun _ => Assignable e := by
  have htarget : ∀ target : Source.Expr,
      Emits (announceTarget target) fun _ => target.isTarget = true := by
    intro target
    unfold announceTarget
    split
    · rename_i h
      exact .pure h
    · exact emits_report _ _ _
  cases e with
  | assign i op target value => exact htarget target
  | increment i kind target => exact htarget target
  | _ => exact .pure trivial

/-- Every composed step takes no message back. -/
lemma emits_of_composed {α : Type} {step : Lower α} (h : Composed c step) :
    Emits step fun _ => True := by
  intro s
  obtain ⟨new, hnew⟩ := h.appendOnly.messages_eq s
  exact ⟨new, hnew, fun _ => trivial⟩

/-- What follows a report is not looked at. -/
lemma Emits.of_report {α β : Type} {step : Lower α} {next : α → Lower β} {Q : β → Prop}
    (h : Emits step fun _ => False) (hnext : ∀ a, Emits (next a) fun _ => True) :
    Emits (step >>= next) Q :=
  h.bind fun a => (hnext a).mono fun _ _ hfalse => hfalse.elim

lemma emits_reported {α : Type} (m : Message) (arguments : List String) (a : α) {Q : α → Prop} :
    Emits (do report m arguments; return a) Q :=
  .of_report (emits_report m arguments _) fun _ => .pure trivial

lemma emits_unexpectedMember {α : Type} (id : MemberId) (form : MemberForm) (f : Member → α)
    {Q : α → Prop} : Emits (do unexpectedForm c id form; return f (← getMember c id)) Q :=
  .of_report (emits_unexpectedForm c id form) fun _ =>
    (emits_require _).bind fun _ => .pure fun _ => trivial

variable {c fields m p}

lemma stableImages_of_images {e : Script.Expr} (h : e.images fields = []) :
    e.stableImages fields = [] := by
  unfold Script.Expr.stableImages
  rw [h, ite_self]

/-! ## Captured values -/

namespace StandsFor

variable {e v : Script.Expr} {values values' : List Script.Expr}

lemma self (h : e.stableImages fields = e.images fields) : StandsFor fields e e :=
  ⟨h.symm, rfl, id⟩

lemma ident (h : e.stableImages fields = []) (x : String) : StandsFor fields e (.ident x) :=
  ⟨h.symm, h.symm, fun _ => trivial⟩

lemma exprsImages_eq (h : List.Forall₂ (StandsFor fields) values values') :
    exprsImages fields values' = stableImages fields values := by
  induction h with
  | nil => rfl
  | cons h _ ih =>
    rw [exprsImages, ih, h.images]
    rfl

end StandsFor

/-- A name may stand for a settled value. -/
lemma Settles.standsFor {e : Source.Expr} {v v' : Script.Expr} (h : Settles c fields p e v)
    (hv : StandsFor fields v v') : Settles c fields p e v' :=
  ⟨by rw [hv.stable, h.count], hv.isValue h.isValue⟩

lemma AllSettle.standsFor {es : List Source.Expr} {values values' : List Script.Expr}
    (h : AllSettle c fields p es values)
    (hvalues : List.Forall₂ (StandsFor fields) values values') :
    AllSettle c fields p es values' := by
  induction h generalizing values' with
  | nil =>
    cases hvalues
    exact .nil
  | cons h _ ih =>
    cases hvalues with
    | cons hv hrest => exact .cons (h.standsFor hv) (ih hrest)

/-- What operands yield together. -/
lemma AllSettle.count {es : List Source.Expr} {values : List Script.Expr}
    (h : AllSettle c fields p es values) :
    (stableImages fields values).countP p =
      (functionsWritten c fields (es.filterMap c.yields)).countP p := by
  induction h with
  | nil => rfl
  | @cons e v es values h _ ih =>
    have hcons : functionsWritten c fields ((e :: es).filterMap c.yields) =
        functionsWritten c fields (c.yields e).toList ++
          functionsWritten c fields (es.filterMap c.yields) := by
      unfold functionsWritten
      cases hyields : c.yields e <;> simp [hyields]
    rw [hcons, stableImages, List.flatMap_cons, List.countP_append, List.countP_append, h.count,
      ← ih]
    rfl

variable (c fields m p)

/-- Stable values are used again. -/
lemma emits_isStable (e : Script.Expr) :
    Emits (isStable c e) fun stable =>
      e.stableImages fields = if stable then e.images fields else [] := by
  intro s
  refine ⟨[], ?_, fun _ => ?_⟩
  · cases e <;> exact (List.append_nil _).symm
  · cases e with
    | ident name => exact (ite_self _).symm
    | _ => rfl

/-- Capturing a value keeps it, and moves its images in front, apart from those of a stable
value. -/
lemma holds_spill (e : Script.Expr) : Emits (spill c e) (Captured fields m p e) := by
  unfold spill
  refine (emits_isStable c fields e).bind fun stable => ?_
  cases stable with
  | true =>
    refine .pure fun hstable => ?_
    rw [if_pos rfl] at hstable
    exact ⟨le_refl _, by rw [hstable, stmtsImages, List.countP_nil, Nat.zero_add], .self hstable⟩
  | false =>
    refine (emits_newTemporary c).bind fun temporary => .pure fun _ hstable => ?_
    rw [if_neg Bool.false_ne_true] at hstable
    exact ⟨by grind, by grind, .ident hstable _⟩

/-- A value is captured for a later one. -/
lemma holds_spillBefore (later e : Script.Expr) :
    Emits (spillBefore c later e) (Captured fields m p e) := by
  unfold spillBefore
  split
  · split
    · exact holds_spill c fields m p _
    · exact .pure ⟨le_refl _, rfl, .self rfl⟩
  · exact holds_spill c fields m p _

variable {c fields m p} in
/-- One value is captured after the other. -/
lemma AllCaptured.cons {e : Script.Expr} {rest : List Script.Expr} {first : Lowered}
    {others : Operands} (hfirst : Captured fields m p e first)
    (hothers : AllCaptured fields m p rest others) :
    AllCaptured fields m p (e :: rest)
      { before := first.before ++ others.before, values := first.value :: others.values } := by
  obtain ⟨hmarks, hcount, hstands⟩ := hfirst
  obtain ⟨hmarks', hcount', hstands'⟩ := hothers
  exact ⟨by grind, by grind, .cons hstands hstands'⟩

/-- Several values are captured. -/
lemma holds_spillAll (values : List Script.Expr) :
    Emits (spillAll c values) (AllCaptured fields m p values) := by
  induction values with
  | nil => exact .pure ⟨le_refl _, rfl, .nil⟩
  | cons e rest ih =>
    exact (holds_spill c fields m p e).bind fun first => ih.bind fun others =>
      .pure fun hothers hfirst => AllCaptured.cons hfirst hothers

lemma holds_spillAllBefore (later : Script.Expr) (values : List Script.Expr) :
    Emits (spillAllBefore c later values) (AllCaptured fields m p values) := by
  induction values with
  | nil => exact .pure ⟨le_refl _, rfl, .nil⟩
  | cons e rest ih =>
    exact (holds_spillBefore c fields m p later e).bind fun first => ih.bind fun others =>
      .pure fun hothers hfirst => AllCaptured.cons hfirst hothers

/-- A further operand leaves those before it as they are, or captured. -/
lemma holds_add (operands : Operands) (operand : Lowered) :
    Emits (operands.add c operand) fun o =>
      Holds m p (operands.marks ++ operand.marks) (operands.images fields ++ operand.images fields)
          o.marks (o.images fields) ∧
        ∀ {es : List Source.Expr} {e : Source.Expr}, AllSettle c fields p es operands.values →
          Settles c fields p e operand.value → AllSettle c fields p (es ++ [e]) o.values := by
  unfold Operands.add
  split
  · rename_i hempty
    rw [List.isEmpty_iff] at hempty
    refine .pure ⟨?_, fun hoperands hoperand => List.rel_append hoperands (.cons hoperand .nil)⟩
    grind
  · refine (holds_spillAll c fields m p operands.values).bind fun earlier => .pure fun hearlier =>
      ⟨?_, fun hoperands hoperand =>
        List.rel_append (hoperands.standsFor hearlier.standsFor) (.cons hoperand .nil)⟩
    obtain ⟨hmarks, hcount, hstands⟩ := hearlier
    have hvalues := StandsFor.exprsImages_eq hstands
    grind

/-! ## Variables and members -/

/-- The first operand and the others make up all operands. -/
lemma headD_tail (values : List Script.Expr) :
    (exprsMarks values).count m ≤
        ((values.headD .null).marks ++ exprsMarks values.tail).count m ∧
      exprsImages fields values =
          (values.headD .null).images fields ++ exprsImages fields values.tail ∧
        stableImages fields values =
          (values.headD .null).stableImages fields ++ stableImages fields values.tail := by
  cases values with
  | nil => exact ⟨Nat.zero_le _, rfl, rfl⟩
  | cons e rest => exact ⟨le_refl _, rfl, rfl⟩

/-- A single operand is the first one. -/
lemma headD_of_length_le_one {values : List Script.Expr} (h : values.length ≤ 1) :
    (exprsMarks values).count m ≤ (values.headD .null).marks.count m ∧
      exprsImages fields values = (values.headD .null).images fields ∧
        stableImages fields values = (values.headD .null).stableImages fields := by
  have htail : values.tail = [] := List.length_eq_zero_iff.mp (by rw [List.length_tail]; omega)
  have hsplit := headD_tail fields m values
  rw [htail] at hsplit
  simpa [exprsMarks, stableImages] using hsplit

/-- Two operands are the first and the second one. -/
lemma first_second {operands : Operands} (h : operands.values.length = 2) :
    (exprsMarks operands.values).count m ≤
        (operands.first.marks ++ operands.second.marks).count m ∧
      exprsImages fields operands.values =
        operands.first.images fields ++ operands.second.images fields := by
  obtain ⟨hmarks, himages, -⟩ := headD_tail fields m operands.values
  have htail : operands.values.tail.length ≤ 1 := by rw [List.length_tail, h]
  obtain ⟨hmarks', himages', -⟩ := headD_of_length_le_one fields m htail
  rw [himages, himages']
  refine ⟨hmarks.trans ?_, rfl⟩
  rw [List.count_append, List.count_append]
  exact Nat.add_le_add_left hmarks' _

/-- The names that count as fields cover all fields. -/
def CoversFields : Prop :=
  ∀ name, c.IsFieldName name → fields name = true

variable {c}

lemma emits_missingVariable (id : VariableId) (Q : Script.Expr → Prop) :
    Emits (missingVariable id) Q :=
  emits_reported _ _ _

/-- A variable is read by its name. -/
lemma holds_readVariable {fields : String → Bool} (hfields : CoversFields c fields)
    (id : VariableId) :
    Emits (readVariable c id) fun e =>
      (c.nameMarks id).count m ≤ e.marks.count m ∧ e.images fields = [] ∧ e.IsValue fields := by
  unfold readVariable Context.nameMarks
  cases c.scope.get? id with
  | none => exact emits_missingVariable id _
  | some v =>
    refine .pure ?_
    split
    · exact ⟨by grind, rfl, hfields _ (.inl rfl)⟩
    · exact ⟨le_refl _, rfl, trivial⟩

/-- Only variables are passed by reference.  They leave their names, and no image becomes of
them. -/
lemma holds_passReference (e : Source.Expr) :
    Emits (passReference c e) fun v =>
      ((leaves c (.expr e)).count m ≤ v.marks.count m ∧ v.images fields = [] ∧ v.IsValue fields) ∧
        written c fields true (.expr e) = [] ∧ c.yields e = none := by
  cases e with
  | localVar i id =>
    have hleaves : leaves c (.expr (.localVar i id)) = c.nameMarks id := by
      rw [leaves_eq]
      simp [own, exprOwn, accessMarks, objectMarks, Node.parts, Source.Expr.inTurn]
    have hwritten : written c fields true (.expr (.localVar i id)) = [] := by
      rw [written_eq, images_eq, copied_eq]
      rfl
    rw [hleaves]
    unfold Context.nameMarks
    cases hv : c.scope.get? id with
    | none =>
      simp only [passReference, hv]
      exact emits_missingVariable id _
    | some v =>
      cases hreference : v.byReference with
      | true =>
        simp only [passReference, hv, hreference, if_true]
        exact .pure ⟨⟨le_refl _, rfl, trivial⟩, hwritten, rfl⟩
      | false =>
        simp only [passReference, hv, hreference, if_false, Bool.false_eq_true]
        exact emits_reported _ _ _
  | _ => exact emits_reported _ _ _

/-- A field is read by its name. -/
lemma emits_fieldName (id : MemberId) :
    Emits (fieldName c id) fun name =>
      c.IsFieldName name ∧ readMarks (c.formOf id) = [.member name] := by
  refine (emits_require _).bind fun form => ?_
  split
  · exact .pure fun hform =>
      ⟨.inr ⟨id, .inl hform.symm⟩, by rw [Context.formOf, ← hform, readMarks]⟩
  · exact .pure fun hform =>
      ⟨.inr ⟨id, .inr hform.symm⟩, by rw [Context.formOf, ← hform, readMarks]⟩
  · exact emits_unexpectedMember c id _ _

/-- A method has its name. -/
lemma emits_methodName (id : MemberId) :
    Emits (methodName c id) fun name => c.formOf id = .method name := by
  refine (emits_require _).bind fun form => ?_
  split
  · exact .pure fun hform => hform.symm
  · exact emits_unexpectedMember c id _ _

/-- Reading a member keeps its object and its arguments. -/
lemma holds_getProperty {fields : String → Bool} (hfields : CoversFields c fields)
    (object : Script.Expr) (id : MemberId) (arguments : List Script.Expr) :
    Emits (getProperty c object id arguments) fun e => c.KeepsArguments id arguments.length →
      Makes fields m (readMarks (c.formOf id) ++ (object.marks ++ exprsMarks arguments))
        (getterImages c fields (c.accessTo id arguments.length) ++
          (object.images fields ++ exprsImages fields arguments)) e := by
  refine (emits_require _).bind fun form => ?_
  unfold Context.KeepsArguments
  have hfield : ∀ name, c.formOf id = .field name ∨ c.formOf id = .fieldProperty name →
      c.KeepsArguments id arguments.length →
      Makes fields m (readMarks (c.formOf id) ++ (object.marks ++ exprsMarks arguments))
        (getterImages c fields (c.accessTo id arguments.length) ++
          (object.images fields ++ exprsImages fields arguments)) (.member object name) := by
    intro name hform hkeeps
    have hname := hfields _ (.inr ⟨id, hform⟩)
    unfold Context.KeepsArguments at hkeeps
    rcases hform with hform | hform <;>
    · rw [hform] at hkeeps
      rw [Context.accessTo, hform, List.length_eq_zero_iff.mp hkeeps]
      exact ⟨by grind, (List.append_nil _).symm, rfl, hname⟩
  split
  · refine .pure fun hform _ => ⟨?_, ?_, rfl, trivial⟩
    · rw [Context.formOf, ← hform]
      grind
    · rw [Context.accessTo, Context.formOf, ← hform, hasAccessors, if_pos rfl, getterImages,
        Context.formOf, ← hform]
      rfl
  · exact .pure fun hform => hfield _ (.inl hform.symm)
  · exact .pure fun hform => hfield _ (.inr hform.symm)
  · refine .pure fun hform hkeeps => ?_
    rw [Context.formOf, ← hform] at hkeeps
    obtain ⟨hmarks, himages, -⟩ := headD_of_length_le_one fields m hkeeps
    refine ⟨?_, ?_, rfl, trivial⟩
    · rw [Context.formOf, ← hform]
      grind
    · rw [Context.accessTo, Context.formOf, ← hform, himages]
      rfl
  · exact .of_report (emits_unexpectedForm c id _) fun _ => .pure trivial

lemma images_dottedName (name : String) : (dottedName name).images fields = [] := by
  have hfoldl : ∀ (names : List String) (e : Script.Expr), e.images fields = [] →
      (names.foldl Script.Expr.member e).images fields = [] := by
    intro names
    induction names with
    | nil => exact fun _ he => he
    | cons name rest ih => exact fun e he => ih (.member e name) he
  unfold dottedName
  split
  · rfl
  · exact hfoldl _ _ rfl

lemma emits_typeReference (id : TypeId) :
    Emits (typeReference c id) fun e =>
      e = dottedName ((c.naming.typeName? c.program id).getD default) :=
  (emits_require _).bind fun _ => .pure fun hname => congrArg dottedName hname

/-- The name of the type of a member, where the member is there. -/
lemma count_typeMarks_le (id : MemberId) :
    ((c.program.member? id).toList.flatMap fun member => c.typeMarks member.declaringType).count m ≤
      (dottedName ((c.naming.typeName? c.program
        ((c.program.member? id).getD default).declaringType).getD default)).marks.count m := by
  cases c.program.member? id with
  | none => exact Nat.zero_le _
  | some member =>
    rw [Option.toList_some, List.flatMap_singleton, Option.getD_some, Context.typeMarks]
    cases c.naming.typeName? c.program member.declaringType with
    | none => exact Nat.zero_le _
    | some name => simp

/-- An implicit receiver is written once. -/
lemma holds_implicitReceiver (id : MemberId) :
    Emits (implicitReceiver c id) fun e =>
      (c.receiverMarks id).count m ≤ e.marks.count m ∧ e.images fields = [] := by
  refine (emits_require _).bind fun member => ?_
  have htype := count_typeMarks_le (c := c) m id
  unfold Context.receiverMarks
  split
  · rename_i hstatic
    refine (emits_typeReference _).mono fun e he hmember => ?_
    subst he hmember
    refine ⟨?_, images_dottedName fields _⟩
    cases hm : c.program.member? id with
    | none => exact Nat.zero_le _
    | some member => simp_all
  · rename_i hstatic
    refine .pure fun hmember => ⟨?_, rfl⟩
    subst hmember
    cases hm : c.program.member? id with
    | none => exact Nat.zero_le _
    | some member => simp_all [Script.Expr.marks]

/-- The object of an access is its first operand, or it is implicit. -/
lemma holds_placeReceiver (id : MemberId) (target : Option Source.Expr)
    (operands : List Script.Expr) :
    Emits (placeReceiver c id target operands) fun e =>
      (implicitMarks c target id ++ exprsMarks operands).count m ≤
          (e.marks ++ exprsMarks (if target.isSome then operands.tail else operands)).count m ∧
        e.images fields ++ exprsImages fields (if target.isSome then operands.tail else operands) =
            exprsImages fields operands ∧
          e.stableImages fields ++
              stableImages fields (if target.isSome then operands.tail else operands) =
            stableImages fields operands := by
  unfold placeReceiver implicitMarks
  cases target with
  | none =>
    refine (holds_implicitReceiver fields m id).mono fun e he => ?_
    rw [he.2, stableImages_of_images he.2]
    exact ⟨by grind, rfl, rfl⟩
  | some target =>
    obtain ⟨hmarks, himages, hstable⟩ := headD_tail fields m operands
    exact .pure ⟨hmarks, himages.symm, hstable.symm⟩

/-- The object of an access holds the operand of the access, where there is no other. -/
lemma holds_object (id : MemberId) {target : Option Source.Expr} {operands : List Script.Expr}
    (hlength : operands.length = (target.map (Argument.mk .value)).toList.length) :
    Emits (placeReceiver c id target operands) fun e =>
      (implicitMarks c target id ++ exprsMarks operands).count m ≤ e.marks.count m ∧
        e.images fields = exprsImages fields operands ∧
          e.stableImages fields = stableImages fields operands := by
  have hnil : (if target.isSome then operands.tail else operands) = [] := by
    cases target with
    | none => exact List.length_eq_zero_iff.mp hlength
    | some e =>
      refine List.length_eq_zero_iff.mp ?_
      change operands.tail.length = 0
      rw [List.length_tail, hlength]
      rfl
  refine (holds_placeReceiver fields m id target operands).mono fun e he => ?_
  rw [hnil] at he
  simpa [exprsMarks, stableImages] using he

/-- A new object keeps its arguments. -/
lemma holds_createObject (id : MemberId) (arguments : List Script.Expr) :
    Emits (createObject c id arguments) fun e =>
      Makes fields m (createMarks c id ++ exprsMarks arguments)
        (.new (c.constructorOf id) arguments.length :: exprsImages fields arguments) e := by
  refine (emits_require _).bind fun member => (emits_typeReference _).bind fun type =>
    (emits_require _).bind fun form => ?_
  have htype := count_typeMarks_le (c := c) m id
  have hmakes : ∀ {constructor : Script.Expr}, constructor = c.constructorOf id →
      constructor.images fields = [] →
      (createMarks c id).count m ≤ ([Mark.new] ++ constructor.marks).count m →
      Makes fields m (createMarks c id ++ exprsMarks arguments)
        (.new (c.constructorOf id) arguments.length :: exprsImages fields arguments)
        (.new constructor arguments) := by
    rintro constructor rfl himages hmarks
    refine ⟨by grind, ?_, rfl, trivial⟩
    rw [Script.Expr.images, himages]
    rfl
  split
  case h_3 => exact .of_report (emits_unexpectedForm c id _) fun _ => .pure trivial
  all_goals
    refine .pure fun hform htypes hmember => ?_
    subst htypes hmember
    refine hmakes ?_ (images_dottedName fields _) ?_
    · rw [Context.constructorOf, Context.formOf, ← hform]
    · rw [createMarks, Context.formOf, ← hform]
      grind

end ScriptCompiler.Lowering
