import Mathlib.Tactic.Common

/-!
# Behavior of statements

A statement runs from one memory to another and ends with an outcome.  Its behavior is the relation
between the two memories and the outcome; a run that never ends leaves no trace in it.

Loops are built from the behavior of one round.  `Bisimilar` compares two behaviors over a relation
of memories in both directions; it passes through sequences and through loops, whatever the number
of rounds.
-/

namespace ScriptCompiler.Machine

/-- How a statement ends. -/
inductive Outcome (V : Type*) where
  | normal
  | break
  | continue
  | return (value : Option V)
  | throw (value : V)

/-- What a loop makes of the outcome of its body: `none` if it goes on, else its own outcome. -/
def Outcome.leaving {V : Type*} : Outcome V → Option (Outcome V)
  | .normal | .continue => none
  | .break => some .normal
  | .return value => some (.return value)
  | .throw value => some (.throw value)

/-- The runs of a statement: the memory before, the outcome and the memory after. -/
abbrev Behavior (M V : Type*) := M → Outcome V → M → Prop

namespace Behavior

variable {M M' V : Type*} {test : M → Bool × M}

/-- Ends at once; `f` gives the outcome and the memory after. -/
def ends (f : M → Outcome V × M) : Behavior M V :=
  fun m o m' => o = (f m).1 ∧ m' = (f m).2

/-- Changes the memory and ends normally. -/
def step (f : M → M) : Behavior M V :=
  ends fun m => (.normal, f m)

/-- Runs `first` and, if it ends normally, `second`. -/
def seq (first second : Behavior M V) : Behavior M V :=
  fun m o m' => (∃ m₁, first m .normal m₁ ∧ second m₁ o m') ∨ (o ≠ .normal ∧ first m o m')

/-- Tests the memory and runs one of two behaviors from where the test left it. -/
def choose (test : M → Bool × M) (whenTrue whenFalse : Behavior M V) : Behavior M V :=
  fun m o m' => if (test m).1 then whenTrue (test m).2 o m' else whenFalse (test m).2 o m'

/-- Repeats rounds until one of them ends the loop with an outcome. -/
inductive Loop (round : M → Option (Outcome V) → M → Prop) : Behavior M V
  | stop {m m' : M} {o : Outcome V} : round m (some o) m' → Loop round m o m'
  | next {m m₁ m' : M} {o : Outcome V} : round m none m₁ → Loop round m₁ o m' → Loop round m o m'

/-- A round of a loop that tests in front of its body. -/
def whileRound (test : M → Bool × M) (body : Behavior M V) :
    M → Option (Outcome V) → M → Prop :=
  fun m r m' =>
    if (test m).1 then ∃ o, body (test m).2 o m' ∧ r = o.leaving
    else r = some .normal ∧ m' = (test m).2

/-- A round of a loop that tests behind its body. -/
def doWhileRound (body : Behavior M V) (test : M → Bool × M) :
    M → Option (Outcome V) → M → Prop :=
  fun m r m' => ∃ o m₁, body m o m₁ ∧
    match o.leaving with
    | some o' => r = some o' ∧ m' = m₁
    | none => r = (if (test m₁).1 then none else some .normal) ∧ m' = (test m₁).2

/-- Doing nothing first makes no difference. -/
lemma step_id_seq (b : Behavior M V) (m : M) (o : Outcome V) (m' : M) :
    seq (step id) b m o m' ↔ b m o m' := by
  constructor
  · rintro (⟨m₁, ⟨-, rfl⟩, h⟩ | ⟨ho, ⟨h, -⟩⟩)
    · exact h
    · exact absurd h ho
  · exact fun h => Or.inl ⟨m, ⟨rfl, rfl⟩, h⟩

/-- Doing nothing afterwards makes no difference. -/
lemma seq_step_id (b : Behavior M V) (m : M) (o : Outcome V) (m' : M) :
    seq b (step id) m o m' ↔ b m o m' := by
  constructor
  · rintro (⟨m₁, h, ⟨rfl, rfl⟩⟩ | ⟨-, h⟩)
    · exact h
    · exact h
  · intro h
    cases o with
    | normal => exact .inl ⟨m', h, rfl, rfl⟩
    | _ => exact .inr ⟨(fun h => by cases h), h⟩

/-- Sequences may be grouped in either way. -/
lemma seq_assoc (a b d : Behavior M V) (m : M) (o : Outcome V) (m' : M) :
    seq a (seq b d) m o m' ↔ seq (seq a b) d m o m' := by
  constructor
  · rintro (⟨m₁, ha, ⟨m₂, hb, hd⟩ | ⟨ho, hb⟩⟩ | ⟨ho, ha⟩)
    · exact .inl ⟨m₂, Or.inl ⟨m₁, ha, hb⟩, hd⟩
    · exact .inr ⟨ho, Or.inl ⟨m₁, ha, hb⟩⟩
    · exact .inr ⟨ho, Or.inr ⟨ho, ha⟩⟩
  · rintro (⟨m₂, ⟨m₁, ha, hb⟩ | ⟨ho, -⟩, hd⟩ | ⟨ho, ⟨m₁, ha, hb⟩ | ⟨-, ha⟩⟩)
    · exact .inl ⟨m₁, ha, Or.inl ⟨m₂, hb, hd⟩⟩
    · exact absurd rfl ho
    · exact .inl ⟨m₁, ha, Or.inr ⟨ho, hb⟩⟩
    · exact .inr ⟨ho, ha⟩

/-- If the test holds, the first behavior is chosen. -/
lemma choose_of_true {m : M} (h : (test m).1 = true) (a b : Behavior M V) (o : Outcome V) (m' : M) :
    choose test a b m o m' ↔ a (test m).2 o m' := by
  simp [choose, h]

/-- If the test fails, the second behavior is chosen. -/
lemma choose_of_false {m : M} (h : (test m).1 = false) (a b : Behavior M V) (o : Outcome V)
    (m' : M) : choose test a b m o m' ↔ b (test m).2 o m' := by
  simp [choose, h]

/-- Every run of one relation from `m` is met by a run of the other one from `t` with the same
result, over a relation `rel` of memories, in both directions. -/
structure Meets {R : Type*} (rel : M → M' → Prop) (b : M → R → M → Prop) (b' : M' → R → M' → Prop)
    (m : M) (t : M') : Prop where
  forth : ∀ {r m'}, b m r m' → ∃ t', b' t r t' ∧ rel m' t'
  back : ∀ {r t'}, b' t r t' → ∃ m', b m r m' ∧ rel m' t'

/-- The runs from related memories meet each other. -/
def Matching {R : Type*} (rel : M → M' → Prop) (b : M → R → M → Prop)
    (b' : M' → R → M' → Prop) : Prop :=
  ∀ ⦃m t⦄, rel m t → Meets rel b b' m t

/-- Two behaviors that match each other. -/
abbrev Bisimilar (rel : M → M' → Prop) (b : Behavior M V) (b' : Behavior M' V) : Prop :=
  Matching rel b b'

variable {rel : M → M' → Prop} {m : M} {t : M'} {test' : M' → Bool × M'}

/-- Behaviors that end at once meet if they end with the same outcome in related memories. -/
lemma meets_ends {f : M → Outcome V × M} {f' : M' → Outcome V × M'} (ho : (f' t).1 = (f m).1)
    (hm : rel (f m).2 (f' t).2) : Meets rel (ends f) (ends f') m t where
  forth := by
    rintro _ _ ⟨rfl, rfl⟩
    exact ⟨(f' t).2, ⟨ho.symm, rfl⟩, hm⟩
  back := by
    rintro _ _ ⟨rfl, rfl⟩
    exact ⟨(f m).2, ⟨ho, rfl⟩, hm⟩

/-- Runs from one memory may be replaced by the same runs from another one. -/
lemma Meets.congr {R : Type*} {b d : M → R → M → Prop} {b' d' : M' → R → M' → Prop} {m₁ : M}
    {t₁ : M'} (h : Meets rel d d' m₁ t₁) (hb : ∀ r m', b m r m' ↔ d m₁ r m')
    (hb' : ∀ r t', b' t r t' ↔ d' t₁ r t') : Meets rel b b' m t where
  forth := by
    intro r m' hrun
    obtain ⟨t', ht', hm'⟩ := h.forth ((hb r m').mp hrun)
    exact ⟨t', (hb' r t').mpr ht', hm'⟩
  back := by
    intro r t' hrun
    obtain ⟨m', hm', hr'⟩ := h.back ((hb' r t').mp hrun)
    exact ⟨m', (hb r m').mpr hm', hr'⟩

/-- Choices meet if their tests agree and what they choose matches. -/
lemma meets_choose {a b : Behavior M V} {a' b' : Behavior M' V} (htest : (test' t).1 = (test m).1)
    (hm : rel (test m).2 (test' t).2) (ha : Bisimilar rel a a') (hb : Bisimilar rel b b') :
    Meets rel (choose test a b) (choose test' a' b') m t := by
  cases hcase : (test m).1 with
  | true =>
    exact (ha hm).congr (choose_of_true hcase a b) (choose_of_true (htest.trans hcase) a' b')
  | false =>
    exact (hb hm).congr (choose_of_false hcase a b) (choose_of_false (htest.trans hcase) a' b')

/-- Sequences of matching behaviors match. -/
lemma Matching.seq {a b : Behavior M V} {a' b' : Behavior M' V} (ha : Bisimilar rel a a')
    (hb : Bisimilar rel b b') : Bisimilar rel (seq a b) (Behavior.seq a' b') := fun _ _ hm =>
  { forth := by
      rintro o m' (⟨m₁, h₁, h₂⟩ | ⟨ho, h⟩)
      · obtain ⟨t₁, ht₁, hm₁⟩ := (ha hm).forth h₁
        obtain ⟨t', ht', hm'⟩ := (hb hm₁).forth h₂
        exact ⟨t', Or.inl ⟨t₁, ht₁, ht'⟩, hm'⟩
      · obtain ⟨t', ht', hm'⟩ := (ha hm).forth h
        exact ⟨t', Or.inr ⟨ho, ht'⟩, hm'⟩
    back := by
      rintro o t' (⟨t₁, h₁, h₂⟩ | ⟨ho, h⟩)
      · obtain ⟨m₁, hm₁, hr₁⟩ := (ha hm).back h₁
        obtain ⟨m', hm', hr'⟩ := (hb hr₁).back h₂
        exact ⟨m', Or.inl ⟨m₁, hm₁, hm'⟩, hr'⟩
      · obtain ⟨m', hm', hr'⟩ := (ha hm).back h
        exact ⟨m', Or.inr ⟨ho, hm'⟩, hr'⟩ }

/-- Rounds of loops that test in front of their bodies meet if the tests agree. -/
lemma meets_whileRound {b : Behavior M V} {b' : Behavior M' V} (htest : (test' t).1 = (test m).1)
    (hm : rel (test m).2 (test' t).2) (hb : Bisimilar rel b b') :
    Meets rel (whileRound test b) (whileRound test' b') m t := by
  cases hcase : (test m).1 with
  | true =>
    rw [hcase] at htest
    constructor
    · intro r m' hround
      simp only [whileRound, hcase, if_true] at hround
      obtain ⟨o, hrun, hr⟩ := hround
      obtain ⟨t', ht', hm'⟩ := (hb hm).forth hrun
      exact ⟨t', by simpa only [whileRound, htest, if_true] using ⟨o, ht', hr⟩, hm'⟩
    · intro r t' hround
      simp only [whileRound, htest, if_true] at hround
      obtain ⟨o, hrun, hr⟩ := hround
      obtain ⟨m', hm', hr'⟩ := (hb hm).back hrun
      exact ⟨m', by simpa only [whileRound, hcase, if_true] using ⟨o, hm', hr⟩, hr'⟩
  | false =>
    rw [hcase] at htest
    constructor
    · intro r m' hround
      simp only [whileRound, hcase, Bool.false_eq_true, if_false] at hround
      obtain ⟨rfl, rfl⟩ := hround
      exact ⟨(test' t).2, by simp [whileRound, htest], hm⟩
    · intro r t' hround
      simp only [whileRound, htest, Bool.false_eq_true, if_false] at hround
      obtain ⟨rfl, rfl⟩ := hround
      exact ⟨(test m).2, by simp [whileRound, hcase], hm⟩

/-- Rounds of loops that test behind their bodies match if the tests agree. -/
lemma Matching.doWhileRound {b : Behavior M V} {b' : Behavior M' V} (hb : Bisimilar rel b b')
    (htest : ∀ {m t}, rel m t → (test' t).1 = (test m).1 ∧ rel (test m).2 (test' t).2) :
    Matching rel (doWhileRound b test) (Behavior.doWhileRound b' test') := fun _ _ hm =>
  { forth := by
      rintro r m' ⟨o, m₁, hrun, hrest⟩
      obtain ⟨t₁, ht₁, hm₁⟩ := (hb hm).forth hrun
      cases ho : o.leaving with
      | some o' =>
        simp only [ho] at hrest
        obtain ⟨rfl, rfl⟩ := hrest
        exact ⟨t₁, ⟨o, t₁, ht₁, by simp [ho]⟩, hm₁⟩
      | none =>
        simp only [ho] at hrest
        obtain ⟨rfl, rfl⟩ := hrest
        exact ⟨_, ⟨o, t₁, ht₁, by simp [ho, (htest hm₁).1]⟩, (htest hm₁).2⟩
    back := by
      rintro r t' ⟨o, t₁, hrun, hrest⟩
      obtain ⟨m₁, hm₁, hr₁⟩ := (hb hm).back hrun
      cases ho : o.leaving with
      | some o' =>
        simp only [ho] at hrest
        obtain ⟨rfl, rfl⟩ := hrest
        exact ⟨m₁, ⟨o, m₁, hm₁, by simp [ho]⟩, hr₁⟩
      | none =>
        simp only [ho] at hrest
        obtain ⟨rfl, rfl⟩ := hrest
        exact ⟨_, ⟨o, m₁, hm₁, by simp [ho, (htest hr₁).1]⟩, (htest hr₁).2⟩ }

/-- Loops whose rounds match each other match.

The number of rounds is not known in advance, so the induction is on the run: every round on one
side is answered by one round on the other. -/
lemma Matching.loop {round : M → Option (Outcome V) → M → Prop}
    {round' : M' → Option (Outcome V) → M' → Prop} (h : Matching rel round round') :
    Bisimilar rel (Loop round) (Loop round') := fun m t hm =>
  { forth := by
      intro o m' hrun
      induction hrun generalizing t with
      | stop hr =>
        obtain ⟨t', ht', hm'⟩ := (h hm).forth hr
        exact ⟨t', .stop ht', hm'⟩
      | next hr _ ih =>
        obtain ⟨t₁, ht₁, hm₁⟩ := (h hm).forth hr
        obtain ⟨t', ht', hm'⟩ := ih t₁ hm₁
        exact ⟨t', .next ht₁ ht', hm'⟩
    back := by
      intro o t' hrun
      induction hrun generalizing m with
      | stop hr =>
        obtain ⟨m', hm', hr'⟩ := (h hm).back hr
        exact ⟨m', .stop hm', hr'⟩
      | next hr _ ih =>
        obtain ⟨m₁, hm₁, hr₁⟩ := (h hm).back hr
        obtain ⟨m', hm', hr'⟩ := ih m₁ hr₁
        exact ⟨m', .next hm₁ hm', hr'⟩ }

end Behavior

end ScriptCompiler.Machine
