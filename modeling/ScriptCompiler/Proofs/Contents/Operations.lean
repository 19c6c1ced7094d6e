import ScriptCompiler.Proofs.Contents.Values

/-!
# Operations keep what they are given

A place has its marks and its images in its sub-expressions.  Reading it and writing it uses them
twice, so the stable ones among them are written twice.  `holds_complete` adds up an expression
around its operands: what it holds itself, what the operands hold, and what the functions that it
copies become.
-/

namespace ScriptCompiler.Lowering

open Script (Image exprsMarks stmtsMarks exprsImages stmtsImages)
open Source (Node Argument)

attribute [grind =] Context.accessorOf storeMarks objectMarks accessMarks locationMarks updateMarks
  incrementMarks exprOwn exprImages

variable {c : Context} (fields : String → Bool) (m : Mark) (p : Image → Bool)

/-! ## Places -/

namespace Place

/-- The marks of the sub-expressions of a place. -/
@[grind =]
def marks : Place → List Mark
  | .binding location | .direct location => location.marks
  | .accessor object _ arguments => object.marks ++ exprsMarks arguments

/-- The images of the sub-expressions of a place. -/
@[grind =]
def images (fields : String → Bool) : Place → List Image
  | .binding location | .direct location => location.images fields
  | .accessor object _ arguments => object.images fields ++ exprsImages fields arguments

/-- The images that are written again once the sub-expressions of a place have been captured. -/
@[grind =]
def stableImages (fields : String → Bool) : Place → List Image
  | .direct (.member target _) => target.stableImages fields
  | .direct (.index target key) => target.stableImages fields ++ key.stableImages fields
  | .binding location | .direct location => location.images fields
  | .accessor object _ arguments =>
    object.stableImages fields ++ Lowering.stableImages fields arguments

/-- The member of a place behind accessors, and its number of arguments. -/
@[grind =]
def access? : Place → Option (MemberId × Nat)
  | .accessor _ id arguments => some (id, arguments.length)
  | .binding _ | .direct _ => none

/-- The member of a place behind accessors. -/
@[grind =]
def accessor? : Place → Option MemberId
  | .accessor _ id _ => some id
  | .binding _ | .direct _ => none

/-- If the place is behind accessors, its member has them. -/
def IsAccessible (c : Context) (place : Place) : Prop :=
  ∀ id n, place.access? = some (id, n) → hasAccessors (c.formOf id) = true

lemma accessor?_eq (place : Place) : place.accessor? = place.access?.map Prod.fst := by
  cases place <;> rfl

variable {target : Source.Expr} {place : Place}

lemma accessor?_of_access? (h : place.access? = c.accessOf target) :
    place.accessor? = c.accessorOf target := by
  rw [accessor?_eq, h]
  cases target with
  | property i object id | indexer i object id arguments =>
    simp only [Context.accessOf, Context.accessorOf, Context.accessTo]
    split <;> rfl
  | _ => rfl

lemma isAccessible_of_access? (h : place.access? = c.accessOf target) : place.IsAccessible c := by
  intro id n hplace
  have haccessor := accessor?_of_access? h
  rw [accessor?_eq, hplace] at haccessor
  obtain ⟨getter, setter, hform⟩ := c.formOf_of_accessorOf haccessor.symm
  rw [hform]
  rfl

end Place

/-- The place holds the operands, and marks of its own. -/
structure Locates (marks : List Mark) (operands : List Script.Expr)
    (access : Option (MemberId × Nat)) (place : Place) : Prop where
  access : place.access? = access
  marks : (marks ++ exprsMarks operands).count m ≤ place.marks.count m
  images : place.images fields = exprsImages fields operands
  stable : place.stableImages fields = stableImages fields operands

/-- The place of a member holds its object and its arguments. -/
lemma holds_propertyPlace (object : Script.Expr) (id : MemberId) {arguments : List Script.Expr}
    (hkeeps : c.KeepsArguments id arguments.length) :
    Emits (propertyPlace c object id arguments)
      (Locates fields m (if hasAccessors (c.formOf id) then [] else readMarks (c.formOf id))
        (object :: arguments) (c.accessTo id arguments.length)) := by
  refine (emits_require _).bind fun form => ?_
  unfold Context.KeepsArguments at hkeeps
  unfold Context.accessTo
  have hfield : ∀ name, c.formOf id = .field name ∨ c.formOf id = .fieldProperty name →
      Locates fields m (if hasAccessors (c.formOf id) then [] else readMarks (c.formOf id))
        (object :: arguments)
        (if hasAccessors (c.formOf id) then some (id, arguments.length) else none)
        (.direct (.member object name)) := by
    rintro name (hform | hform) <;>
    · rw [hform] at hkeeps ⊢
      rw [List.length_eq_zero_iff.mp hkeeps]
      exact ⟨rfl, by grind, (List.append_nil _).symm, (List.append_nil _).symm⟩
  split
  · refine .pure fun hform => ?_
    rw [Context.formOf, ← hform]
    exact ⟨rfl, by grind, rfl, rfl⟩
  · exact .pure fun hform => hfield _ (.inl hform.symm)
  · exact .pure fun hform => hfield _ (.inr hform.symm)
  · refine .pure fun hform => ?_
    rw [Context.formOf, ← hform] at hkeeps ⊢
    obtain ⟨hmarks, himages, hstable⟩ := headD_of_length_le_one fields m hkeeps
    exact ⟨rfl, by grind, congrArg (_ ++ ·) himages.symm, congrArg (_ ++ ·) hstable.symm⟩
  · exact emits_unexpectedMember c id _ _

/-- The place of a target holds its sub-expressions and what the target leaves itself. -/
lemma holds_placeOf {fields : String → Bool} (hfields : CoversFields c fields)
    {target : Source.Expr} (htarget : target.isTarget = true) (hkeeps : IndexerKeeps c target)
    {operands : List Script.Expr} (hlength : operands.length = target.operands.length) :
    Emits (placeOf c target operands)
      (Locates fields m (objectMarks c target ++ locationMarks c target) operands
        (c.accessOf target)) := by
  obtain ⟨hmarks, himages, hstable⟩ := headD_tail fields m operands
  cases target with
  | localVar i id =>
    refine (holds_readVariable m hfields id).bind fun location => .pure fun hlocation => ?_
    rw [List.length_eq_zero_iff.mp hlength]
    exact ⟨rfl, by grind, hlocation.2.1, hlocation.2.1⟩
  | field i object id =>
    refine (holds_object fields m id hlength).bind fun receiver =>
      (emits_fieldName id).bind fun name => .pure fun hname hreceiver => ?_
    exact ⟨rfl, by grind, hreceiver.2.1, hreceiver.2.2⟩
  | property i object id =>
    refine (holds_object fields m id hlength).bind fun receiver =>
      (holds_propertyPlace fields m receiver id (c.keepsArguments_zero id)).mono
        fun place hplace hreceiver => ⟨hplace.access, ?_, ?_, ?_⟩
    · rw [locationMarks_eq c (e := .property i object id) rfl rfl, objectMarks]
      have hcount := hplace.marks
      grind
    · rw [hplace.images, ← hreceiver.2.1]
      exact List.append_nil _
    · rw [hplace.stable, ← hreceiver.2.2]
      exact List.append_nil _
  | indexer i object id arguments =>
    have harguments : operands.tail.length = arguments.length := by
      rw [List.length_tail, hlength]
      rfl
    refine (holds_propertyPlace fields m _ id (by rw [harguments]; exact hkeeps)).mono
      fun place hplace =>
        ⟨?_, ?_, hplace.images.trans himages.symm, hplace.stable.trans hstable.symm⟩
    · rw [hplace.access, harguments]
      rfl
    · rw [locationMarks_eq c (e := .indexer i object id arguments) rfl rfl]
      have hcount := hplace.marks
      grind
  | element i array index =>
    have htail : operands.tail.length ≤ 1 := by
      rw [List.length_tail, hlength]
      exact le_refl _
    obtain ⟨hmarks', himages', hstable'⟩ := headD_of_length_le_one fields m htail
    rw [himages'] at himages
    rw [hstable'] at hstable
    exact .pure ⟨rfl, by grind, himages.symm, hstable.symm⟩
  | _ => cases htarget

variable (c)

/-- Capturing the sub-expressions of a place keeps them, and moves their images in front, apart from
stable ones. -/
lemma holds_stabilize (place : Place) :
    Emits (place.stabilize c) fun r =>
      r.2.access? = place.access? ∧
        place.marks.count m ≤ (stmtsMarks r.1 ++ r.2.marks).count m ∧
          (stmtsImages fields r.1).countP p + (place.stableImages fields).countP p =
              (place.images fields).countP p ∧
            r.2.images fields = place.stableImages fields := by
  unfold Place.stabilize
  split
  · refine (holds_spill c fields m p _).bind fun target => .pure fun htarget => ?_
    obtain ⟨hmarks, hcount, hstands⟩ := htarget
    exact ⟨rfl, by grind, hcount, hstands.images⟩
  · refine (holds_spill c fields m p _).bind fun target => (holds_spill c fields m p _).bind
      fun key => .pure fun hkey htarget => ?_
    obtain ⟨hmarks, hcount, hstands⟩ := htarget
    obtain ⟨hmarks', hcount', hstands'⟩ := hkey
    refine ⟨rfl, by grind, by grind, ?_⟩
    simp only [Place.images, Place.stableImages, Script.Expr.images, hstands.images,
      hstands'.images]
  · refine (holds_spill c fields m p _).bind fun object => (holds_spillAll c fields m p _).bind
      fun arguments => .pure fun harguments hobject => ?_
    obtain ⟨hmarks, hcount, hstands⟩ := hobject
    obtain ⟨hmarks', hcount', hstands'⟩ := harguments
    refine ⟨?_, by grind, by grind, ?_⟩
    · simp only [Place.access?, hstands'.length_eq]
    · simp only [Place.images, Place.stableImages, hstands.images,
        StandsFor.exprsImages_eq hstands']
  · rename_i hmember hindex haccessor
    have hsame : place.images fields = place.stableImages fields := by
      cases place with
      | binding location => rfl
      | direct location =>
        cases location with
        | member target name => exact (hmember _ _ rfl).elim
        | index target key => exact (hindex _ _ rfl).elim
        | _ => rfl
      | accessor object id arguments => exact (haccessor _ _ _ rfl).elim
    refine .pure ⟨rfl, le_refl _, ?_, hsame⟩
    rw [hsame, stmtsImages, List.countP_nil, Nat.zero_add]

variable {c}

/-- The value at a place holds its sub-expressions. -/
lemma holds_load {fields : String → Bool} (hfields : CoversFields c fields) (place : Place) :
    Emits (place.load c) fun e => place.IsAccessible c →
      (loadMarks c place.accessor? ++ place.marks).count m ≤ e.marks.count m ∧
        e.images fields = getterImages c fields place.access? ++ place.images fields := by
  cases place with
  | binding location | direct location => exact .pure fun _ => ⟨le_refl _, rfl⟩
  | accessor object id arguments =>
    refine (holds_getProperty m hfields object id arguments).mono fun e he hplace => ?_
    have hform : hasAccessors (c.formOf id) = true := hplace id _ rfl
    have hkeeps : c.KeepsArguments id arguments.length := by
      unfold Context.KeepsArguments
      split <;> simp_all [hasAccessors]
    obtain ⟨hmarks, himages, -⟩ := he hkeeps
    rw [himages, Context.accessTo, if_pos hform]
    exact ⟨hmarks, rfl⟩

lemma emits_setterName (id : MemberId) :
    Emits (Place.setterName c id) fun setter =>
      ∃ getter, c.formOf id = .property getter setter := by
  refine (emits_require _).bind fun form => ?_
  split
  · exact .pure fun hform => ⟨_, hform.symm⟩
  · exact emits_unexpectedMember c id _ _

variable (c)

/-- Writing keeps the place and the value.  Through a setter, a stable value is written once more if
it is used further on. -/
lemma holds_store (place : Place) (value : Script.Expr) (important : Bool) :
    Emits (place.store c value important) fun l =>
      Holds m p (storeMarks c place.accessor? ++ (place.marks ++ value.marks))
          (setterImages c fields place.access? ++ (place.images fields ++ (value.images fields ++
            if important && place.access?.isSome then value.stableImages fields else [])))
          l.marks (l.images fields) ∧
        (important = true → l.value.stableImages fields =
            (if place.access?.isSome then value.stableImages fields else []) ∧
          (value.IsValue fields → l.value.IsValue fields)) := by
  cases place with
  | binding location | direct location =>
    refine .pure ⟨?_, fun _ => ⟨rfl, fun _ => trivial⟩⟩
    cases important <;> grind [setterImages]
  | accessor object id arguments =>
    refine (emits_setterName id).bind fun setter => ?_
    have hstore : ∀ getter, c.formOf id = .property getter setter →
        storeMarks c (some id) = [.member setter, .call] ∧
          setterImages c fields (some (id, arguments.length)) =
            [.ofMember fields setter (arguments.length + 1)] := by
      intro getter hform
      simp only [storeMarks, setterImages, hform, and_self]
    cases important with
    | false =>
      refine .pure fun ⟨getter, hform⟩ => ⟨?_, fun h => (by cases h)⟩
      obtain ⟨hmarks, himages⟩ := hstore getter hform
      grind
    | true =>
      refine (emits_isStable c fields value).bind fun stable => ?_
      cases stable with
      | true =>
        refine .pure fun hstable ⟨getter, hform⟩ => ⟨?_, fun _ => ⟨rfl, fun h => h⟩⟩
        obtain ⟨hmarks, himages⟩ := hstore getter hform
        grind
      | false =>
        refine (holds_spillBefore c fields m p _ _).bind fun object' =>
          (holds_spillAllBefore c fields m p _ _).bind fun arguments' =>
            (holds_spill c fields m p _).bind fun value' =>
              .pure fun hvalue harguments hobject hstable ⟨getter, hform⟩ =>
                ⟨?_, fun _ => ⟨hvalue.standsFor.stable, hvalue.standsFor.isValue⟩⟩
        obtain ⟨hmarks, himages⟩ := hstore getter hform
        obtain ⟨hmarks₁, hcount₁, hstands₁⟩ := hobject
        obtain ⟨hmarks₂, hcount₂, hstands₂⟩ := harguments
        obtain ⟨hmarks₃, hcount₃, hstands₃⟩ := hvalue
        have himages₁ := hstands₁.images
        have himages₂ := StandsFor.exprsImages_eq hstands₂
        have himages₃ := hstands₃.images
        have hlength := hstands₂.length_eq
        grind

/-- An operator on two values keeps both. -/
lemma makes_combine (op : Source.BinaryOp) (integerDivision : Bool) (left right : Script.Expr) :
    Makes fields m ([.ofOperator (binaryOp op)] ++ (left.marks ++ right.marks))
      (left.images fields ++ right.images fields) (combine op integerDivision left right) := by
  cases integerDivision with
  | true => exact ⟨by grind [combine, truncate], List.append_nil _, rfl, trivial⟩
  | false => exact ⟨le_refl _, rfl, rfl, trivial⟩

/-- One more or one less keeps the value. -/
lemma makes_stepped (kind : Source.IncrementKind) (value : Script.Expr) :
    Makes fields m
      ([.ofOperator (binaryOp (if kind.isIncrement then .add else .subtract))] ++ value.marks)
      (value.images fields ++ []) (stepped kind value) := by
  refine ⟨?_, rfl, rfl, trivial⟩
  cases kind <;> grind [stepped, Source.IncrementKind.isIncrement, binaryOp]

variable {c fields}

/-- A place that is read and then written has its stable sub-expressions twice. -/
lemma holds_readAndWrite (hfields : CoversFields c fields) (place : Place) (marks : List Mark)
    {update : Script.Expr → Script.Expr} {extra : List Image}
    (hupdate : ∀ e, Makes fields m (marks ++ e.marks) (e.images fields ++ extra) (update e))
    (important : Bool) :
    Emits (do
        let captured ← place.stabilize c
        let current ← captured.2.load c
        let stored ← captured.2.store c (update current) important
        return { stored with before := captured.1 ++ stored.before }) fun l : Lowered =>
      place.IsAccessible c →
        Holds m p (storeMarks c place.accessor? ++ (loadMarks c place.accessor? ++
              (marks ++ place.marks)))
            (setterImages c fields place.access? ++ (getterImages c fields place.access? ++
              (place.images fields ++ (extra ++ place.stableImages fields))))
            l.marks (l.images fields) ∧
          (important = true → l.value.stableImages fields = [] ∧ l.value.IsValue fields) := by
  refine (holds_stabilize c fields m p place).bind fun captured =>
    (holds_load m hfields captured.2).bind fun current =>
      (holds_store c fields m p captured.2 _ important).bind fun stored =>
        .pure fun hstored hcurrent hcaptured hplace => ?_
  obtain ⟨haccess, hmarks, hcount, hstable⟩ := hcaptured
  obtain ⟨hupdated, himages, hunstable, hvalue⟩ := hupdate current
  have haccessor : captured.2.accessor? = place.accessor? := by
    rw [Place.accessor?_eq, haccess, ← Place.accessor?_eq]
  have hload := hcurrent (by rw [Place.IsAccessible, haccess]; exact hplace)
  have hstore := hstored.1
  rw [haccess, hstable] at hload hstore
  rw [haccessor] at hload hstore
  rw [himages, hunstable, ite_self, hload.2] at hstore
  refine ⟨?_, fun himportant => ?_⟩
  · grind
  · obtain ⟨hlast, hlastValue⟩ := hstored.2 himportant
    rw [hunstable, ite_self] at hlast
    exact ⟨hlast, hlastValue hvalue⟩

/-- An operator on the old value of a place takes the place into the assignment, unless the place is
behind accessors or the value has to be cut down. -/
lemma holds_compoundAssign (hfields : CoversFields c fields) (op : Source.BinaryOp)
    (integerDivision : Bool) (place : Place) (value : Script.Expr) (important : Bool) :
    Emits (compoundAssign c op integerDivision place value important) fun l =>
      place.IsAccessible c →
        Holds m p (storeMarks c place.accessor? ++ (updateMarks c place.accessor? op ++
              (place.marks ++ value.marks)))
            (setterImages c fields place.access? ++ (getterImages c fields place.access? ++
              (place.images fields ++ (value.images fields ++
                if place.access?.isSome || integerDivision then place.stableImages fields
                  else []))))
            l.marks (l.images fields) ∧
          (important = true → l.value.stableImages fields = [] ∧ l.value.IsValue fields) := by
  have htwice := holds_readAndWrite m p hfields place ([.ofOperator (binaryOp op)] ++ value.marks)
    (fun current => by
      obtain ⟨hmarks, hmade⟩ := makes_combine fields m op integerDivision current value
      exact ⟨by grind, hmade⟩) important
  cases integerDivision with
  | true =>
    rw [Bool.or_true, if_pos rfl]
    cases place <;> exact htwice.mono fun l hl hplace => ⟨by grind, (hl hplace).2⟩
  | false =>
    cases place with
    | binding location | direct location =>
      exact .pure fun _ => ⟨by grind [setterImages, getterImages], fun _ => ⟨rfl, trivial⟩⟩
    | accessor object id arguments =>
      exact htwice.mono fun l hl hplace => ⟨by grind, (hl hplace).2⟩

lemma holds_incrementPlace (hfields : CoversFields c fields) (kind : Source.IncrementKind)
    (place : Place) (important : Bool) :
    Emits (incrementPlace c kind place important) fun l => place.IsAccessible c →
      Holds m p (incrementMarks c place.accessor? kind ++ place.marks)
          (setterImages c fields place.access? ++ (getterImages c fields place.access? ++
            (place.images fields ++
              if place.access?.isSome then place.stableImages fields else [])))
          l.marks (l.images fields) ∧
        (important = true → l.value.stableImages fields = [] ∧ l.value.IsValue fields) := by
  cases place with
  | binding location | direct location =>
    refine .pure fun _ => ?_
    cases kind <;> exact ⟨by grind [incrementExpr, stepMark, setterImages, getterImages],
      fun _ => ⟨rfl, trivial⟩⟩
  | accessor object id arguments =>
    by_cases hold : (kind.isPost && important) = true
    · -- the old value is in a temporary, so only the call of the getter is in front of the setter
      simp only [incrementPlace, hold, if_true]
      refine (holds_stabilize c fields m p _).bind fun captured =>
        (holds_load m hfields captured.2).bind fun current =>
          (emits_newTemporary c).bind fun temporary =>
            (holds_store c fields m p captured.2 _ false).bind fun stored =>
              .pure fun hstored _ hcurrent hcaptured hplace => ⟨?_, fun _ => ⟨rfl, trivial⟩⟩
      obtain ⟨haccess, hmarks, hcount, hstable⟩ := hcaptured
      have haccessor := captured.2.accessor?_eq
      have hload := hcurrent (by rw [Place.IsAccessible, haccess]; exact hplace)
      have hstore := hstored.1
      obtain ⟨hstep, himages, -⟩ := makes_stepped fields m kind (.ident temporary)
      rw [haccess] at haccessor
      rw [haccess, hstable] at hload hstore
      rw [haccessor] at hload hstore
      rw [himages] at hstore
      grind
    · simp only [incrementPlace, hold, if_false, Bool.false_eq_true]
      exact (holds_readAndWrite m p hfields _ _ (makes_stepped fields m kind) important).mono
        fun l hl hplace => ⟨by grind, (hl hplace).2⟩

/-! ## Expressions around their operands -/

/-- The last of several operands. -/
lemma AllSettle.exists_last {es : List Source.Expr} {e : Source.Expr} {values : List Script.Expr}
    (h : AllSettle c fields p (es ++ [e]) values) :
    ∃ init last, values = init ++ [last] ∧ AllSettle c fields p es init ∧
      Settles c fields p e last := by
  induction es generalizing values with
  | nil =>
    cases h with
    | cons hlast hnil =>
      cases hnil
      exact ⟨[], _, rfl, .nil, hlast⟩
  | cons first es ih =>
    cases h with
    | cons hfirst hrest =>
      obtain ⟨init, last, rfl, hinit, hlast⟩ := ih hrest
      exact ⟨_ :: init, last, rfl, .cons hfirst hinit, hlast⟩

lemma Settles.of_stableImages {e : Source.Expr} {v : Script.Expr} (hyields : c.yields e = none)
    (hstable : v.stableImages fields = []) (hvalue : v.IsValue fields) :
    Settles c fields p e v := by
  refine ⟨?_, hvalue⟩
  rw [hstable, hyields]
  rfl

variable {m} in
/-- An expression that copies nothing and is no function itself. -/
lemma completed_of_makes {e : Source.Expr} {important : Bool} {operands : Operands}
    {value : Script.Expr} (hcopied : c.copiedBy important e = []) (hyields : c.yields e = none)
    (hvalue : Makes fields m (exprOwn c e ++ exprsMarks operands.values)
      (exprImages c fields e ++ exprsImages fields operands.values) value) :
    Completed c fields m p e important operands ⟨operands.before, value⟩ := by
  obtain ⟨hmarks, himages, hstable, hplain⟩ := hvalue
  refine ⟨?_, fun _ => .of_stableImages p hyields hstable hplain⟩
  rw [hcopied]
  grind

/-- An assignment writes its target, its value and what is copied of them. -/
lemma holds_assign (hfields : CoversFields c fields) {i : Source.Info}
    {op : Option Source.BinaryOp} {target value : Source.Expr} (htarget : target.isTarget = true)
    (hkeeps : IndexerKeeps c target) (important : Bool) {operands : Operands}
    (h : AllSettle c fields p ((Source.Expr.assign i op target value).inTurn.map Argument.value)
      operands.values) :
    Emits (complete c (.assign i op target value) important operands)
      (Completed c fields m p (.assign i op target value) important operands) := by
  rw [Source.Expr.inTurn, List.map_append] at h
  obtain ⟨init, last, hvalues, hinit, hlast⟩ := h.exists_last
  have hdrop : operands.values.dropLast = init := by rw [hvalues, List.dropLast_concat]
  have hoperand : operands.last = last := by
    rw [Operands.last, hvalues, List.getLast?_concat, Option.getD_some]
  have hlength : init.length = target.operands.length := by
    rw [← hinit.length_eq, List.length_map]
  have hfunctions := hinit.count
  rw [List.filterMap_map] at hfunctions
  simp only [complete, hdrop, hoperand]
  refine (holds_placeOf m hfields htarget hkeeps hlength).bind fun place => ?_
  cases op with
  | none =>
    refine (holds_store c fields m p place last important).bind fun stored =>
      .pure fun hstored hplace => ?_
    obtain ⟨haccess, hmarks, himages, -⟩ := hplace
    obtain ⟨hcount, hvalue⟩ := hstored
    rw [Place.accessor?_of_access? haccess, haccess, himages] at hcount
    rw [haccess] at hvalue
    refine ⟨?_, fun himportant => ?_⟩
    · have hcopied : (functionsWritten c fields
            (c.copiedBy important (.assign i none target value))).countP p =
          (if important && (c.accessOf target).isSome then last.stableImages fields
            else []).countP p := by
        rw [Context.copiedBy]
        split
        · exact hlast.count.symm
        · rfl
      grind
    · obtain ⟨hstable, hstoredValue⟩ := hvalue himportant
      refine ⟨?_, hstoredValue hlast.isValue⟩
      rw [hstable, Context.yields]
      split
      · exact hlast.count
      · rfl
  | some op =>
    refine (holds_compoundAssign m p hfields op _ place last important).bind fun stored =>
      .pure fun hstored hplace => ?_
    obtain ⟨haccess, hmarks, himages, hstable⟩ := hplace
    obtain ⟨hcount, hvalue⟩ := hstored (Place.isAccessible_of_access? haccess)
    rw [Place.accessor?_of_access? haccess, haccess, himages, hstable] at hcount
    refine ⟨?_, fun himportant => ?_⟩
    · have hcopied : (functionsWritten c fields
            (c.copiedBy important (.assign i (some op) target value))).countP p =
          (if (c.accessOf target).isSome || isIntegerDivision op target value then
            stableImages fields init else []).countP p := by
        rw [Context.copiedBy, Context.stabilizes]
        split
        · exact hfunctions.symm
        · rfl
      grind
    · obtain ⟨hstable, hstoredValue⟩ := hvalue himportant
      exact .of_stableImages p rfl hstable hstoredValue

lemma holds_increment (hfields : CoversFields c fields) {i : Source.Info}
    {kind : Source.IncrementKind} {target : Source.Expr} (htarget : target.isTarget = true)
    (hkeeps : IndexerKeeps c target) (important : Bool) {operands : Operands}
    (h : AllSettle c fields p ((Source.Expr.increment i kind target).inTurn.map Argument.value)
      operands.values) :
    Emits (complete c (.increment i kind target) important operands)
      (Completed c fields m p (.increment i kind target) important operands) := by
  have hlength : operands.values.length = target.operands.length := by
    rw [← h.length_eq, List.length_map]
    rfl
  have hfunctions := h.count
  rw [List.filterMap_map] at hfunctions
  refine (holds_placeOf m hfields htarget hkeeps hlength).bind fun place =>
    (holds_incrementPlace m p hfields kind place important).bind fun stored =>
      .pure fun hstored hplace => ?_
  obtain ⟨haccess, hmarks, himages, hstable⟩ := hplace
  obtain ⟨hcount, hvalue⟩ := hstored (Place.isAccessible_of_access? haccess)
  rw [Place.accessor?_of_access? haccess, haccess, himages, hstable] at hcount
  refine ⟨?_, fun himportant => ?_⟩
  · have hcopied : (functionsWritten c fields
          (c.copiedBy important (.increment i kind target))).countP p =
        (if (c.accessOf target).isSome then stableImages fields operands.values
          else []).countP p := by
      rw [Context.copiedBy]
      split
      · exact hfunctions.symm
      · rfl
    grind
  · obtain ⟨hstable, hstoredValue⟩ := hvalue himportant
    exact .of_stableImages p rfl hstable hstoredValue

/-- Completing an expression keeps its operands, and adds what it holds itself and what becomes of
the functions that it copies. -/
theorem holds_complete (hfields : CoversFields c fields) {e : Source.Expr}
    (hstrict : e.isStrict = true) (hkeeps : NodeKeeps c (.expr e)) (hassignable : Assignable e)
    (important : Bool) {operands : Operands}
    (h : AllSettle c fields p (e.inTurn.map Argument.value) operands.values) :
    Emits (complete c e important operands) (Completed c fields m p e important operands) := by
  have hlength : operands.values.length = e.inTurn.length := by
    rw [← h.length_eq, List.length_map]
  have hsplit := headD_tail fields m operands.values
  cases e with
  | constant i value =>
    refine .pure (completed_of_makes p rfl rfl ?_)
    rw [List.length_eq_zero_iff.mp hlength]
    cases value <;> exact ⟨by grind, rfl, rfl, trivial⟩
  | localVar i id =>
    refine (holds_readVariable m hfields id).bind fun value => .pure fun hvalue =>
      completed_of_makes p rfl rfl ⟨?_, ?_, stableImages_of_images hvalue.2.1, hvalue.2.2⟩
    · rw [List.length_eq_zero_iff.mp hlength]
      grind
    · rw [List.length_eq_zero_iff.mp hlength, hvalue.2.1]
      rfl
  | this i =>
    refine .pure (completed_of_makes p rfl rfl ?_)
    rw [List.length_eq_zero_iff.mp hlength]
    exact ⟨le_refl _, rfl, rfl, trivial⟩
  | field i target id =>
    exact (holds_object fields m id hlength).bind fun object => (emits_fieldName id).bind
      fun name => .pure fun hname hobject => completed_of_makes p rfl rfl
        ⟨by grind, hobject.2.1, rfl, hfields _ hname.1⟩
  | property i target id =>
    refine (holds_object fields m id hlength).bind fun object =>
      (holds_getProperty m hfields object id []).bind fun value => .pure fun hvalue hobject => ?_
    obtain ⟨hmarks, himages, hplain⟩ := hvalue (c.keepsArguments_zero id)
    refine completed_of_makes p rfl rfl ⟨by grind, ?_, hplain⟩
    rw [himages, hobject.2.1, exprsImages, List.append_nil]
    rfl
  | indexer i target id arguments =>
    have harguments : operands.rest.length = arguments.length := by
      rw [Operands.rest, List.length_tail, hlength]
      rfl
    refine (holds_getProperty m hfields _ id _).bind fun value => .pure fun hvalue => ?_
    obtain ⟨hmarks, himages, hplain⟩ := hvalue (by rw [harguments]; exact hkeeps)
    refine completed_of_makes p rfl rfl ⟨by grind, ?_, hplain⟩
    rw [himages, harguments, hsplit.2.1]
    rfl
  | element i array index =>
    obtain ⟨hmarks, himages⟩ := first_second fields m hlength
    exact .pure (completed_of_makes p rfl rfl ⟨by grind, himages.symm, rfl, trivial⟩)
  | call i target id arguments =>
    refine (holds_placeReceiver fields m id target _).bind fun object =>
      (emits_methodName id).bind fun name => .pure fun hname hobject =>
        completed_of_makes p rfl rfl ⟨by grind [methodMarks], ?_, rfl, trivial⟩
    have harguments : (if target.isSome then operands.rest else operands.values).length =
        arguments.length := by
      cases target with
      | none => exact hlength
      | some e =>
        change operands.values.tail.length = _
        rw [List.length_tail, hlength]
        rfl
    rw [exprImages, methodImages, hname, ← hobject.2.1, ← harguments]
    rfl
  | delegateCall i target arguments =>
    refine .pure (completed_of_makes p rfl rfl ⟨by grind, ?_, rfl, trivial⟩)
    have harguments : operands.rest.length = arguments.length := by
      rw [Operands.rest, List.length_tail, hlength]
      rfl
    obtain ⟨first, rest, hfirst, -, hvalues⟩ := List.forall₂_cons_left_iff.mp h
    have hvalue : operands.first.IsValue fields := by
      rw [Operands.first, hvalues]
      exact hfirst.isValue
    rw [Script.Expr.images, hvalue.ofCallee, harguments, hsplit.2.1]
    rfl
  | create i id arguments =>
    refine (holds_createObject fields m id _).bind fun value => .pure fun hvalue =>
      completed_of_makes p rfl rfl ⟨hvalue.1, ?_, hvalue.2.2⟩
    rw [hvalue.2.1, hlength]
    rfl
  | createArray i elements =>
    refine .pure (completed_of_makes p rfl rfl ⟨le_refl _, ?_, rfl, trivial⟩)
    rw [Script.Expr.images, hlength, Source.Expr.inTurn, List.length_map]
    rfl
  | binary i op left right =>
    obtain ⟨hmarks, himages⟩ := first_second fields m hlength
    obtain ⟨hcombined, hcombinedImages, hplain⟩ := makes_combine fields m op
      (isIntegerDivision op left right) operands.first operands.second
    exact .pure (completed_of_makes p rfl rfl
      ⟨by grind, hcombinedImages.trans himages.symm, hplain⟩)
  | unary i op operand =>
    obtain ⟨hmarks, himages, -⟩ := headD_of_length_le_one fields m hlength.le
    exact .pure (completed_of_makes p rfl rfl ⟨by grind, himages.symm, rfl, trivial⟩)
  | assign i op target value => exact holds_assign m p hfields hassignable hkeeps important h
  | increment i kind target => exact holds_increment m p hfields hassignable hkeeps important h
  | conditional => cases hstrict
  | lambda => cases hstrict

end ScriptCompiler.Lowering
