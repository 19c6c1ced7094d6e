import ScriptCompiler.Resolution.ExplicitName

/-!
# Spellings of an interface

An interface has one full name, with an arity behind a backtick and `+` in front of nested types,
but many spellings: type arguments in angle brackets may follow each of its parts, the arities may
be left out, and a dot may stand for the `+`.  `SpelledAs` relates the full name to all of them.

The brackets of a spelling are balanced, so the last dot outside brackets of a stored name
`interface.member` is the one in front of the member (`splitExplicitName_append`), and all
spellings of one interface have the same normal form (`SpelledAs.normalizeInterface_eq`).
-/

namespace ScriptCompiler.Resolution

/-- A text without angle brackets. -/
def Unbracketed (cs : List Char) : Prop :=
  ∀ c ∈ cs, c ≠ '<' ∧ c ≠ '>'

instance (cs : List Char) : Decidable (Unbracketed cs) :=
  List.decidableBAll (fun c => c ≠ '<' ∧ c ≠ '>') cs

/-- A text in which every angle bracket has its partner. -/
inductive Balanced : List Char → Prop
  | nil : Balanced []
  | char {c : Char} {rest : List Char} (hopen : c ≠ '<') (hclose : c ≠ '>') (h : Balanced rest) :
    Balanced (c :: rest)
  | bracket {inner rest : List Char} (hinner : Balanced inner) (hrest : Balanced rest) :
    Balanced ('<' :: (inner ++ '>' :: rest))

namespace Balanced

theorem of_unbracketed {cs : List Char} (h : Unbracketed cs) : Balanced cs := by
  induction cs with
  | nil => exact .nil
  | cons c cs ih =>
    have hc := h c (by simp)
    exact .char hc.1 hc.2 (ih fun d hd => h d (by simp [hd]))

theorem append {cs ds : List Char} (hc : Balanced cs) (hd : Balanced ds) : Balanced (cs ++ ds) := by
  induction hc with
  | nil => exact hd
  | char hopen hclose _ ih => exact .char hopen hclose ih
  | @bracket inner rest hinner _ _ ih =>
    rw [List.cons_append, List.append_assoc, List.cons_append]
    exact .bracket hinner ih

end Balanced

/-! ## The last dot outside brackets -/

theorem lastOuterDot_char {c : Char} (hopen : c ≠ '<') (hclose : c ≠ '>') (depth : Int)
    (position : Nat) (last : Option Nat) (rest : List Char) :
    lastOuterDot depth position last (c :: rest) =
      lastOuterDot depth (position + 1)
        (if c = '.' ∧ depth = 0 then some position else last) rest := by
  rw [lastOuterDot.eq_def]
  split
  · contradiction
  · rename_i heq
    exact absurd (List.cons.inj heq).1 hopen
  · rename_i heq
    exact absurd (List.cons.inj heq).1 hclose
  · rename_i heq
    obtain ⟨rfl, rfl⟩ := List.cons.inj heq
    rfl

/-- A balanced text ends at the depth at which it started. -/
theorem lastOuterDot_balanced {cs : List Char} (h : Balanced cs) (depth : Int) (position : Nat)
    (last : Option Nat) (rest : List Char) :
    ∃ found, lastOuterDot depth position last (cs ++ rest) =
      lastOuterDot depth (position + cs.length) found rest := by
  induction h generalizing depth position last rest with
  | nil => exact ⟨last, rfl⟩
  | @char c cs hopen hclose _ ih =>
    rw [List.cons_append, lastOuterDot_char hopen hclose]
    obtain ⟨found, hfound⟩ := ih depth (position + 1)
      (if c = '.' ∧ depth = 0 then some position else last) rest
    refine ⟨found, ?_⟩
    rw [hfound, List.length_cons, Nat.add_assoc, Nat.add_comm 1]
  | @bracket inner cs _ _ ihInner ih =>
    -- the text inside is one level deeper, and the closing bracket leads back
    obtain ⟨within, hwithin⟩ := ihInner (depth + 1) (position + 1) last ('>' :: (cs ++ rest))
    obtain ⟨found, hfound⟩ := ih depth (position + 1 + inner.length + 1) within rest
    refine ⟨found, ?_⟩
    have hlength : position + 1 + inner.length + 1 + cs.length =
        position + ('<' :: (inner ++ '>' :: cs)).length := by
      simp only [List.length_cons, List.length_append]
      omega
    rw [List.cons_append, List.append_assoc, List.cons_append, lastOuterDot, hwithin, lastOuterDot,
      Int.add_sub_cancel, hfound, hlength]

/-- Without dots the answer is the one found before. -/
theorem lastOuterDot_of_no_dot {cs : List Char} (hcs : Unbracketed cs) (hdot : '.' ∉ cs)
    (position : Nat) (last : Option Nat) : lastOuterDot 0 position last cs = last := by
  induction cs generalizing position with
  | nil => rfl
  | cons c cs ih =>
    have hc := hcs c (by simp)
    have hne : c ≠ '.' := fun h => hdot (by simp [h])
    rw [lastOuterDot_char hc.1 hc.2, if_neg fun h => hne h.1]
    exact ih (fun d hd => hcs d (by simp [hd])) (fun h => hdot (by simp [h])) _

/-- A name that can stand for a member by itself: without dots and angle brackets. -/
def IsSimple (name : String) : Prop :=
  ∀ c ∈ name.toList, c ≠ '.' ∧ c ≠ '<' ∧ c ≠ '>'

instance (name : String) : Decidable (IsSimple name) :=
  List.decidableBAll (fun c => c ≠ '.' ∧ c ≠ '<' ∧ c ≠ '>') name.toList

namespace IsSimple

variable {name : String}

theorem unbracketed (h : IsSimple name) : Unbracketed name.toList :=
  fun c hc => (h c hc).2

theorem no_dot (h : IsSimple name) : '.' ∉ name.toList :=
  fun hdot => (h '.' hdot).1 rfl

end IsSimple

/-- A simple name has no interface part. -/
theorem splitExplicitName_of_isSimple {name : String} (h : IsSimple name) :
    splitExplicitName name = none := by
  simp only [splitExplicitName, lastOuterDot_of_no_dot h.unbracketed h.no_dot]

/-- A stored name is split in front of its member. -/
theorem splitExplicitName_append {interface member : String} (hne : interface ≠ "")
    (hinterface : Balanced interface.toList) (hmember : IsSimple member) :
    splitExplicitName (interface ++ "." ++ member) = some (interface, member) := by
  have hchars : (interface ++ "." ++ member).toList =
      interface.toList ++ '.' :: member.toList := by
    simp [String.toList_append]
  have hlength : interface.toList.length ≠ 0 := by
    intro h
    exact hne (String.toList_eq_nil_iff.mp (List.eq_nil_of_length_eq_zero h))
  obtain ⟨found, hfound⟩ := lastOuterDot_balanced hinterface 0 0 none ('.' :: member.toList)
  have hlast : lastOuterDot 0 0 none (interface ++ "." ++ member).toList =
      some interface.toList.length := by
    rw [hchars, hfound, lastOuterDot_char (by decide) (by decide), if_pos ⟨rfl, rfl⟩,
      lastOuterDot_of_no_dot hmember.unbracketed hmember.no_dot, Nat.zero_add]
  simp only [splitExplicitName, hlast]
  rw [hchars, List.take_left, List.drop_length_add_append]
  simp

/-! ## Normal forms -/

/-- What follows a part of an interface's name: nothing, or the mark in front of a nested type. -/
def StartsPart (rest : List Char) : Prop :=
  rest = [] ∨ ∃ c tail, rest = c :: tail ∧ (c = '.' ∨ c = '+')

/-- The first character of the rest ends an arity, so it does not matter whether there was one. -/
theorem plainInterface_startsPart {rest : List Char} (h : StartsPart rest) (arity : Bool) :
    plainInterface 0 arity rest = plainInterface 0 false rest := by
  obtain rfl | ⟨c, tail, rfl, rfl | rfl⟩ := h
  · rfl
  · simp [plainInterface]
  · simp [plainInterface]

/-- Inside brackets nothing is kept. -/
theorem plainInterface_inside {cs : List Char} (h : Balanced cs) (depth : Nat) (arity : Bool)
    (rest : List Char) :
    plainInterface (depth + 1) arity (cs ++ rest) = plainInterface (depth + 1) arity rest := by
  induction h generalizing depth rest with
  | nil => rfl
  | @char c cs hopen hclose _ ih =>
    rw [List.cons_append, plainInterface, if_neg hopen, if_neg hclose, if_pos (Nat.succ_pos _), ih]
  | @bracket inner cs _ _ ihInner ih =>
    rw [List.cons_append, List.append_assoc, List.cons_append, plainInterface, if_pos rfl,
      ihInner (depth + 1), plainInterface, if_neg (by decide), if_pos rfl, Nat.add_sub_cancel, ih]

/-- Digits of an arity are dropped. -/
theorem plainInterface_digits {cs : List Char} (h : ∀ c ∈ cs, c.isDigit) (rest : List Char) :
    plainInterface 0 true (cs ++ rest) = plainInterface 0 true rest := by
  induction cs with
  | nil => rfl
  | cons c cs ih =>
    have hc : c.isDigit = true := h c (by simp)
    have hne : ∀ d : Char, d.isDigit = false → c ≠ d := by
      intro d hd heq
      rw [heq, hd] at hc
      contradiction
    rw [List.cons_append, plainInterface, if_neg (hne '<' (by decide)),
      if_neg (hne '>' (by decide)), if_neg (by decide), if_neg (hne '\x60' (by decide)),
      if_pos (by simp [hc]), ih fun d hd => h d (by simp [hd])]

/-- What follows a name of a part in a spelling: an arity, if it is written, and type arguments, if
there are any. -/
structure PartTail where
  arity : Option Nat := none
  arguments : Option String := none
  balanced : ∀ text ∈ arguments, Balanced text.toList

namespace PartTail

/-- The characters of the tail. -/
def chars (t : PartTail) : List Char :=
  t.arity.elim [] (fun n => '\x60' :: Nat.toDigits 10 n) ++
    t.arguments.elim [] (fun text => '<' :: (text.toList ++ ['>']))

/-- The tail of the full name of a type with the given number of parameters of its own. -/
def ofCount (count : Nat) : PartTail where
  arity := if count = 0 then none else some count
  balanced := by simp

theorem balanced_chars (t : PartTail) : Balanced t.chars := by
  refine Balanced.append ?_ ?_
  · cases t.arity with
    | none => exact .nil
    | some n =>
      refine .char (by decide) (by decide) (.of_unbracketed fun c hc => ?_)
      have hdigit := Nat.isDigit_of_mem_toDigits (by decide) (by decide) hc
      constructor <;> rintro rfl <;> exact absurd hdigit (by decide)
  · cases h : t.arguments with
    | none => exact .nil
    | some text => exact .bracket (t.balanced text h) .nil

/-- Nothing of a tail is kept. -/
theorem plainInterface_chars (t : PartTail) (arity : Bool) {rest : List Char}
    (h : StartsPart rest) :
    plainInterface 0 arity (t.chars ++ rest) = plainInterface 0 false rest := by
  have harguments : ∀ before : Bool,
      plainInterface 0 before
        (t.arguments.elim [] (fun text => '<' :: (text.toList ++ ['>'])) ++ rest) =
        plainInterface 0 false rest := by
    intro before
    cases ht : t.arguments with
    | none => exact plainInterface_startsPart h before
    | some text =>
      simp only [Option.elim_some, List.cons_append, List.append_assoc, List.nil_append]
      rw [plainInterface, if_pos rfl, plainInterface_inside (t.balanced text ht), plainInterface,
        if_neg (by decide), if_pos rfl]
      exact plainInterface_startsPart h before
  rw [chars, List.append_assoc]
  cases t.arity with
  | none => exact harguments arity
  | some n =>
    simp only [Option.elim_some, List.cons_append]
    rw [plainInterface, if_neg (by decide), if_neg (by decide), if_neg (by decide), if_pos rfl,
      plainInterface_digits fun c hc => Nat.isDigit_of_mem_toDigits (by decide) (by decide) hc]
    exact harguments true

end PartTail

/-- A text without brackets is kept up to its arities, whatever follows it. -/
theorem plainInterface_name {cs : List Char} (h : Unbracketed cs) (arity : Bool) :
    ∃ kept after, ∀ rest, plainInterface 0 arity (cs ++ rest) =
      kept ++ plainInterface 0 after rest := by
  induction cs generalizing arity with
  | nil => exact ⟨[], arity, fun _ => rfl⟩
  | cons c cs ih =>
    have hc := h c (by simp)
    have hcs : Unbracketed cs := fun d hd => h d (by simp [hd])
    by_cases htick : c = '\x60'
    · obtain ⟨kept, after, hrest⟩ := ih hcs true
      refine ⟨kept, after, fun rest => ?_⟩
      rw [List.cons_append, plainInterface, if_neg hc.1, if_neg hc.2, if_neg (by decide),
        if_pos htick, hrest]
    by_cases hdigit : (arity && c.isDigit) = true
    · obtain ⟨kept, after, hrest⟩ := ih hcs arity
      refine ⟨kept, after, fun rest => ?_⟩
      rw [List.cons_append, plainInterface, if_neg hc.1, if_neg hc.2, if_neg (by decide),
        if_neg htick, if_pos hdigit, hrest]
    · obtain ⟨kept, after, hrest⟩ := ih hcs false
      refine ⟨(if c = '+' then '.' else c) :: kept, after, fun rest => ?_⟩
      rw [List.cons_append, plainInterface, if_neg hc.1, if_neg hc.2, if_neg (by decide),
        if_neg htick, if_neg hdigit, hrest, List.cons_append]

/-- The brackets of `cs` are balanced, and `text` is what is left of it before of further parts. -/
structure Leaves (cs text : List Char) : Prop where
  balanced : Balanced cs
  plain : ∀ rest, StartsPart rest →
    plainInterface 0 false (cs ++ rest) = text ++ plainInterface 0 false rest

/-- Of a part its name is kept. -/
theorem leaves_part {name kept : List Char} {after : Bool} (hname : Unbracketed name)
    (hkept : ∀ rest, plainInterface 0 false (name ++ rest) = kept ++ plainInterface 0 after rest)
    (tail : PartTail) : Leaves (name ++ tail.chars) kept where
  balanced := (Balanced.of_unbracketed hname).append tail.balanced_chars
  plain rest hrest := by rw [List.append_assoc, hkept, tail.plainInterface_chars _ hrest]

/-- Either mark in front of a part becomes a dot. -/
theorem Leaves.append {cs ds text text' : List Char} (h : Leaves cs text) (h' : Leaves ds text')
    {mark : Char} (hmark : mark = '.' ∨ mark = '+') :
    Leaves (cs ++ mark :: ds) (text ++ '.' :: text') where
  balanced := by
    have hmark' : mark ≠ '<' ∧ mark ≠ '>' := by
      rcases hmark with rfl | rfl <;> decide
    exact h.balanced.append (.char hmark'.1 hmark'.2 h'.balanced)
  plain rest hrest := by
    have hdot : plainInterface 0 false (mark :: (ds ++ rest)) =
        '.' :: plainInterface 0 false (ds ++ rest) := by
      rcases hmark with rfl | rfl <;> simp [plainInterface]
    rw [List.append_assoc, List.cons_append, h.plain _ (.inr ⟨_, _, rfl, hmark⟩), hdot,
      h'.plain rest hrest, List.append_assoc, List.cons_append]

theorem Leaves.normalizeInterface_eq {name : String} {text : List Char}
    (h : Leaves name.toList text) : normalizeInterface name = String.ofList text := by
  have hplain := h.plain [] (.inl rfl)
  rw [List.append_nil, plainInterface, List.append_nil] at hplain
  rw [normalizeInterface, hplain]

/-- `SpelledAs full spelling` tells that `spelling` is a spelling of the interface with the full
name `full`.  The first name of both is the path and the name of the outermost type. -/
inductive SpelledAs : List Char → List Char → Prop
  | outermost {name : List Char} (count : Nat) (tail : PartTail) (hname : Unbracketed name) :
    SpelledAs (name ++ (PartTail.ofCount count).chars) (name ++ tail.chars)
  | nested {outer spelling name : List Char} (count : Nat) (tail : PartTail) (mark : Char)
      (hmark : mark = '.' ∨ mark = '+') (hname : Unbracketed name) (h : SpelledAs outer spelling) :
    SpelledAs (outer ++ '+' :: (name ++ (PartTail.ofCount count).chars))
      (spelling ++ mark :: (name ++ tail.chars))

namespace SpelledAs

variable {full spelling : List Char}

/-- Full name and spelling keep the same text. -/
theorem leaves (h : SpelledAs full spelling) : ∃ text, Leaves full text ∧ Leaves spelling text := by
  induction h with
  | outermost count tail hname =>
    obtain ⟨kept, after, hkept⟩ := plainInterface_name hname false
    exact ⟨kept, leaves_part hname hkept _, leaves_part hname hkept tail⟩
  | nested count tail mark hmark hname _ ih =>
    obtain ⟨text, hfull, hspelling⟩ := ih
    obtain ⟨kept, after, hkept⟩ := plainInterface_name hname false
    exact ⟨_, hfull.append (leaves_part hname hkept _) (.inr rfl),
      hspelling.append (leaves_part hname hkept tail) hmark⟩

theorem balanced (h : SpelledAs full spelling) : Balanced spelling := by
  obtain ⟨text, -, hspelling⟩ := h.leaves
  exact hspelling.balanced

/-- All spellings of an interface have the normal form of its full name. -/
theorem normalizeInterface_eq {name text : String} (h : SpelledAs name.toList text.toList) :
    normalizeInterface text = normalizeInterface name := by
  obtain ⟨kept, hname, htext⟩ := h.leaves
  rw [hname.normalizeInterface_eq, htext.normalizeInterface_eq]

end SpelledAs

end ScriptCompiler.Resolution
