import ScriptCompiler.Proofs.Hoisting.Agreement

/-!
# Operations on the state of lowering

Lowering touches its state through a few operations only.  `Calls` follows a step through them and
notes the temporaries that it is given; `Composed` says that every run of a step can be followed.

Two facts hold of all composed steps.  What was reported before has no influence: earlier messages
just stand in front of those of the step (`Composed.appendOnly`).  And the temporaries of one run
are all different (`Calls.nodup`), because each takes the next number.
-/

namespace ScriptCompiler.Lowering

variable {α β : Type} {step : Lower α} {next : α → Lower β}

/-! ## Results of steps -/

/-- Whatever state the step starts from, its result has the property `Q`. -/
def Gives (step : Lower α) (Q : α → Prop) : Prop :=
  ∀ s : State, Q (step s).1

lemma Gives.pure {a : α} {Q : α → Prop} (h : Q a) : Gives (pure a) Q :=
  fun _ => h

/-- Results are known in turn. -/
lemma Gives.bind {R : α → Prop} {Q : β → Prop} (h : Gives step R)
    (hnext : ∀ a, R a → Gives (next a) Q) : Gives (step >>= next) Q :=
  fun s => hnext _ (h s) _

/-- The first result does not matter. -/
lemma gives_bind {Q : β → Prop} (hnext : ∀ a, Gives (next a) Q) : Gives (step >>= next) Q :=
  fun _ => hnext _ _

/-- What is asked for is given, or a default. -/
lemma gives_require [Inhabited α] (o : Option α) : Gives (require o) (· = o.getD default) := by
  cases o <;> exact fun _ => rfl

/-! ## Runs of steps -/

/-- `Calls c step s names` says that `step`, run from `s`, is given the temporaries `names`. -/
inductive Calls (c : Context) : {α : Type} → Lower α → State → List String → Prop where
  | pure {α : Type} (a : α) (s : State) : Calls c (Pure.pure a : Lower α) s []
  | bind {α β : Type} {step : Lower α} {next : α → Lower β} {s : State} {first later : List String} :
    Calls c step s first → Calls c (next (step s).1) (step s).2 later →
      Calls c (step >>= next) s (first ++ later)
  | newTemporary (s : State) : Calls c (newTemporary c) s [(newTemporary c s).1]
  | report (m : Message) (arguments : List String) (s : State) : Calls c (report m arguments) s []
  | setLocation (location : Location) (s : State) : Calls c (setLocation location) s []
  | currentLocation (s : State) : Calls c currentLocation s []
  | require {α : Type} [Inhabited α] (o : Option α) (s : State) : Calls c (require o) s []
  | isStable (e : Script.Expr) (s : State) : Calls c (isStable c e) s []

/-- The state with further messages in front of its own. -/
def State.behind (earlier : List Reported) (s : State) : State :=
  { s with reporter := { s.reporter with messages := earlier ++ s.reporter.messages } }

namespace Calls

variable {c : Context} {step : Lower α} {s : State} {names : List String}

/-- Each call takes the next number. -/
lemma names_eq (h : Calls c step s names) :
    (step s).2.next = s.next + names.length ∧
      names = (List.range' s.next names.length).map c.temporaryName := by
  induction h with
  | pure a s => exact ⟨rfl, rfl⟩
  | @bind α β step next s first later _ _ hfirst hlater =>
    have hnext : ((step >>= next) s).2 = (next (step s).1 (step s).2).2 := rfl
    rw [hnext, hlater.1, hfirst.1, List.length_append]
    refine ⟨by omega, ?_⟩
    rw [List.range'_append_1.symm, List.map_append, ← hfirst.2, ← hfirst.1, ← hlater.2]
  | newTemporary s => exact ⟨rfl, rfl⟩
  | report m arguments s => exact ⟨rfl, rfl⟩
  | setLocation location s => exact ⟨rfl, rfl⟩
  | currentLocation s => exact ⟨rfl, rfl⟩
  | require o s => cases o <;> exact ⟨rfl, rfl⟩
  | isStable e s => cases e <;> exact ⟨rfl, rfl⟩

/-- No temporary is given twice. -/
theorem nodup (h : Calls c step s names) : names.Nodup := by
  rw [h.names_eq.2]
  exact List.Nodup.map (Context.temporaryName_injective c) List.nodup_range'

/-- A run that asked for something outside the program keeps the mark. -/
lemma dangling (h : Calls c step s names) : s.dangling = true → (step s).2.dangling = true := by
  induction h with
  | pure a s => exact id
  | bind _ _ hfirst hlater => exact fun hs => hlater (hfirst hs)
  | newTemporary s => exact id
  | report m arguments s => exact id
  | setLocation location s => exact id
  | currentLocation s => exact id
  | require o s =>
    intro hs
    cases o with
    | none => rfl
    | some a => exact hs
  | isStable e s => cases e <;> exact id

/-- Earlier messages just stand in front of those of the step. -/
lemma behind (h : Calls c step s names) (earlier : List Reported) :
    step (s.behind earlier) = ((step s).1, (step s).2.behind earlier) := by
  induction h with
  | pure a s => rfl
  | @bind α β step next s first later _ _ hfirst hlater =>
    change next (step (s.behind earlier)).1 (step (s.behind earlier)).2 = _
    rw [hfirst]
    exact hlater
  | newTemporary s => rfl
  | report m arguments s =>
    have hmessages : (s.behind earlier).reporter.report m arguments =
        { s.reporter.report m arguments with
          messages := earlier ++ (s.reporter.report m arguments).messages } := by
      simp only [State.behind, Reporter.report, Reporter.entry, List.append_assoc]
    change ((), { (s.behind earlier) with
      reporter := (s.behind earlier).reporter.report m arguments }) = _
    rw [hmessages]
    rfl
  | setLocation location s => rfl
  | currentLocation s => rfl
  | require o s => cases o <;> rfl
  | isStable e s => cases e <;> rfl

end Calls

/-- Every run of the step goes through the operations on the state. -/
def Composed (c : Context) (step : Lower α) : Prop :=
  ∀ s, ∃ names, Calls c step s names

/-- Earlier messages just stand in front of those of the step. -/
def AppendOnly (step : Lower α) : Prop :=
  ∀ earlier s, step (s.behind earlier) = ((step s).1, (step s).2.behind earlier)

/-- The messages of an append-only step stand behind those that were there. -/
lemma AppendOnly.messages_eq (h : AppendOnly step) (s : State) :
    ∃ new, (step s).2.reporter.messages = s.reporter.messages ++ new := by
  let quiet : State := { s with reporter := { s.reporter with messages := [] } }
  have hs : s = quiet.behind s.reporter.messages := by
    simp only [quiet, State.behind, List.append_nil]
  refine ⟨(step quiet).2.reporter.messages, ?_⟩
  conv_lhs => rw [hs, h]
  rfl

namespace Composed

variable {c : Context}

lemma pure (a : α) : Composed c (Pure.pure a : Lower α) :=
  fun s => ⟨_, .pure a s⟩

/-- One step after another, with what is known of the first result. -/
lemma bind_of {T : α → Prop} (h : Composed c step) (hresult : Gives step T)
    (hnext : ∀ a, T a → Composed c (next a)) : Composed c (step >>= next) := by
  intro s
  obtain ⟨first, hfirst⟩ := h s
  obtain ⟨later, hlater⟩ := hnext _ (hresult s) (step s).2
  exact ⟨first ++ later, hfirst.bind hlater⟩

/-- Composed steps are composed in turn. -/
lemma bind (h : Composed c step) (hnext : ∀ a, Composed c (next a)) : Composed c (step >>= next) :=
  h.bind_of (T := fun _ => True) (fun _ => trivial) fun a _ => hnext a

lemma map (f : α → β) (h : Composed c step) : Composed c (f <$> step) := by
  rw [map_eq_pure_bind]
  exact h.bind fun a => .pure _

/-- A composed step only adds messages. -/
theorem appendOnly (h : Composed c step) : AppendOnly step := by
  intro earlier s
  obtain ⟨names, hnames⟩ := h s
  exact hnames.behind earlier

/-- A composed step never hands a number back. -/
lemma next_le (h : Composed c step) (s : State) : s.next ≤ (step s).2.next := by
  obtain ⟨names, hnames⟩ := h s
  rw [hnames.names_eq.1]
  exact Nat.le_add_right _ _

end Composed

/-! ## Small operations -/

section Primitive

variable {c : Context}

lemma composed_newTemporary : Composed c (newTemporary c) :=
  fun s => ⟨_, .newTemporary s⟩

lemma composed_report (m : Message) (arguments : List String) : Composed c (report m arguments) :=
  fun s => ⟨_, .report m arguments s⟩

lemma composed_internalError (text : String) : Composed c (internalError text) :=
  composed_report _ _

lemma composed_unsupported (construct : String) : Composed c (unsupported construct) :=
  composed_report _ _

lemma composed_setLocation (location : Location) : Composed c (setLocation location) :=
  fun s => ⟨_, .setLocation location s⟩

lemma composed_currentLocation : Composed c currentLocation :=
  fun s => ⟨_, .currentLocation s⟩

lemma composed_require [Inhabited α] (o : Option α) : Composed c (require o) :=
  fun s => ⟨_, .require o s⟩

end Primitive

variable (c : Context)

lemma composed_isStable (e : Script.Expr) : Composed c (isStable c e) :=
  fun s => ⟨_, .isStable e s⟩

lemma composed_unexpectedForm (id : MemberId) (form : MemberForm) :
    Composed c (unexpectedForm c id form) :=
  (composed_require _).bind fun _ => composed_internalError _

lemma composed_typeReference (id : TypeId) : Composed c (typeReference c id) :=
  (composed_require _).bind fun _ => .pure _

end ScriptCompiler.Lowering
