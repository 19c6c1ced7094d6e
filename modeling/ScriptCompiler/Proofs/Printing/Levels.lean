import ScriptCompiler.Proofs.Printing.Grammar

/-!
# Levels of the grammar by strength

A level of the grammar reads everything that binds at least as tight as its strength.  What tells
it where to stop is the next token: `strength t` is the level that `t` carries on, and an
expression of level `p` ends in front of every token whose strength is below `p`.

`Reads` says that a level reads given tokens to the end as an expression, `Spine` and `Trails` that
it has read them and goes on with the operators of its own level that may follow.  The loops of the
grammar count their rounds; every bound that is at least the number of tokens left will do.
-/

namespace ScriptCompiler.Script

namespace Grammar

variable {rest : List Token} {t : Token}

open Token

/-! ## Where expressions end -/

/-- Tokens that carry an expression on, with the level at which they do. -/
def strengths : List (Token × ℕ) :=
  [(mark ".", 18), (mark "[", 18), (mark "(", 18), (mark "++", 16), (mark "--", 16)] ++
    (levels.zipIdx 6).flatMap (fun (table, p) => table.map fun (t, _) => (t, p)) ++
    [(mark "&&", 5), (mark "||", 4), (mark "??", 4), (mark "?", 3)] ++
    assignments.map (fun (t, _) => (t, 2)) ++ [(mark ",", 1)]

/-- The level at which the token carries an expression on, zero if it does not. -/
def strength (t : Token) : ℕ :=
  (strengths.lookup t).getD 0

/-- An expression of level `p` ends in front of these tokens. -/
def Stops (p : ℕ) (rest : List Token) : Prop :=
  ∀ t ∈ rest.head?, strength t < p

lemma stops_nil (p : ℕ) : Stops p [] := by
  intro t ht
  cases ht

/-- A weak token stops a stronger level. -/
lemma stops_cons {p : ℕ} (ht : strength t < p) (rest : List Token) : Stops p (t :: rest) := by
  intro u hu
  cases hu
  exact ht

/-- What stops a level stops the stronger ones. -/
lemma Stops.mono {p q : ℕ} (hpq : p ≤ q) (h : Stops p rest) : Stops q rest :=
  fun t ht => Nat.lt_of_lt_of_le (h t ht) hpq

/-- A token of level `p` or tighter does not follow. -/
lemma Stops.ne {p : ℕ} {t u : Token} (h : Stops p (t :: rest))
    (hu : p ≤ strength u) : t ≠ u := by
  rintro rfl
  exact absurd (h t rfl) (Nat.not_lt.2 hu)

/-- None of the tokens of a table of level `p` follows. -/
lemma Stops.lookup_eq_none {β : Type} {p : ℕ} {table : List (Token × β)}
    (htable : ∀ entry ∈ table, p ≤ strength entry.1) (h : Stops p (t :: rest)) :
    table.lookup t = none := by
  cases hlookup : table.lookup t with
  | none => rfl
  | some b =>
    obtain ⟨before, behind, heq, -⟩ := List.lookup_eq_some_iff.1 hlookup
    have hmem : (t, b) ∈ table := by rw [heq]; exact List.mem_append_right _ List.mem_cons_self
    exact absurd rfl (h.ne (htable _ hmem))

lemma expect_self (t : Token) (rest : List Token) : expect t (t :: rest) = some rest :=
  if_pos rfl

/-- What stops a level is no token of it. -/
lemma Stops.expect_eq_none {p : ℕ} (ht : p ≤ strength t) (h : Stops p rest) :
    expect t rest = none := by
  cases rest with
  | nil => rfl
  | cons u rest => exact if_neg (h.ne ht)

/-! ## Reading at a level -/

/-- The parser reads the tokens as `e`, in front of everything that ends an expression of level
`p`. -/
def Reads {α : Type} (parser : Parser α) (p : ℕ) (tokens : List Token) (a : α) : Prop :=
  ∀ rest, Stops p rest → parser (tokens ++ rest) = some (a, rest)

section Chains

variable {table : Table} {operand : Parser Expr} {p q : ℕ} {tokens tokens' : List Token}
  {e e' : Expr}

/-- A chain ends where its level stops. -/
lemma chain_stops (htable : ∀ entry ∈ table, p ≤ strength entry.1)
    (hrest : Stops p rest) (n : ℕ) : chain table operand n e rest = some (e, rest) := by
  cases n with
  | zero => rfl
  | succ n =>
    cases rest with
    | nil => rfl
    | cons t rest => rw [chain, hrest.lookup_eq_none htable]

/-- The level has read the tokens as `e` and goes on with its operators. -/
def Spine (table : Table) (operand : Parser Expr) (q : ℕ) (tokens : List Token) (e : Expr) :
    Prop :=
  ∀ rest, Stops q rest → ∃ n, rest.length ≤ n ∧
    leftGrouped table operand (tokens ++ rest) = chain table operand n e rest

/-- An operand of the level is a spine without operators. -/
lemma Reads.spine (h : Reads operand q tokens e) : Spine table operand q tokens e := by
  intro rest hrest
  refine ⟨rest.length, Nat.le_refl _, ?_⟩
  rw [leftGrouped, h rest hrest]
  rfl

/-- A spine grows by an operator of its level and an operand. -/
lemma Spine.binary (h : Spine table operand q tokens e) (h' : Reads operand q tokens' e')
    {op : BinaryOp} (hop : table.lookup t = some op) (ht : strength t < q) :
    Spine table operand q (tokens ++ t :: tokens') (.binary op e e') := by
  intro rest hrest
  obtain ⟨n, hn, hread⟩ := h (t :: (tokens' ++ rest)) (stops_cons ht _)
  rw [List.length_cons, List.length_append] at hn
  obtain ⟨n, rfl⟩ : ∃ m, n = m + 1 := Nat.exists_eq_add_one.2 (by omega)
  refine ⟨n, by omega, ?_⟩
  rw [List.append_assoc, List.cons_append, hread, chain, hop]
  dsimp only
  rw [h' rest hrest]
  rfl

/-- A spine is read as one expression. -/
lemma Spine.reads (h : Spine table operand q tokens e)
    (htable : ∀ entry ∈ table, p ≤ strength entry.1) (hpq : p ≤ q) :
    Reads (leftGrouped table operand) p tokens e := by
  intro rest hrest
  obtain ⟨n, -, hread⟩ := h rest (hrest.mono hpq)
  rw [hread, chain_stops htable hrest]

end Chains

/-! ### Lists -/

/-- The tokens do not open with a closing bracket. -/
def Opens (tokens : List Token) : Prop :=
  ∃ t ts, tokens = t :: ts ∧ t ∉ closers

section Lists

variable {α : Type} {item : Parser α} {parts : List (List Token)} {items : List α}

/-- Items between commas are read in turn. -/
lemma separated_append (h : List.Forall₂ (Reads item 2) parts items) (hne : parts ≠ [])
    (hrest : Stops 1 rest) {n : ℕ} (hn : parts.length ≤ n) :
    separated item n ([mark ","].intercalate parts ++ rest) = some (items, rest) := by
  induction h generalizing n with
  | nil => exact absurd rfl hne
  | @cons tokens a parts items hhead htail ih =>
    obtain ⟨n, rfl⟩ : ∃ m, n = m + 1 :=
      Nat.exists_eq_add_one.2 (Nat.lt_of_lt_of_le (Nat.succ_pos _) hn)
    cases htail with
    | nil =>
      rw [List.intercalate_singleton, separated, hhead rest (hrest.mono (by decide))]
      simp only [Option.bind_eq_bind, Option.bind_some]
      rw [hrest.expect_eq_none (by decide)]
      rfl
    | @cons next b parts items hnext htail =>
      have hothers := ih (List.cons_ne_nil _ _) (Nat.le_of_succ_le_succ hn)
      rw [List.intercalate_cons_cons, List.append_assoc, List.append_assoc, List.singleton_append,
        separated, hhead _ (stops_cons (by decide) _)]
      simp only [Option.bind_eq_bind, Option.bind_some]
      rw [expect_self]
      dsimp only
      rw [hothers]
      rfl

lemma length_le_intercalate (h : ∀ part ∈ parts, part ≠ []) :
    parts.length ≤ ([mark ","].intercalate parts).length := by
  induction parts with
  | nil => exact Nat.zero_le _
  | cons part parts ih =>
    obtain ⟨hpart, hparts⟩ := List.forall_mem_cons.1 h
    have hlength := List.length_pos_of_ne_nil hpart
    cases parts with
    | nil => rw [List.intercalate_singleton]; exact hlength
    | cons next parts =>
      have hothers := ih hparts
      rw [List.intercalate_cons_cons]
      simp only [List.length_cons, List.length_append, List.length_nil] at hothers ⊢
      omega

/-- A list opens as its first item does. -/
lemma opens_intercalate (h : ∀ part ∈ parts, Opens part) (hne : parts ≠ []) :
    Opens ([mark ","].intercalate parts) := by
  cases parts with
  | nil => exact absurd rfl hne
  | cons part parts =>
    obtain ⟨t, ts, rfl, ht⟩ := h part List.mem_cons_self
    cases parts with
    | nil => exact ⟨t, ts, List.intercalate_singleton, ht⟩
    | cons next parts =>
      refine ⟨t, ts ++ [mark ","] ++ [mark ","].intercalate (next :: parts), ?_, ht⟩
      rw [List.intercalate_cons_cons, List.cons_append, List.cons_append]

/-- Items in brackets. -/
lemma listUpTo_append (h : List.Forall₂ (Reads item 2) parts items)
    (hopens : ∀ part ∈ parts, Opens part) {close : Token}
    (hclose : close ∈ closers) (rest : List Token) :
    listUpTo item close ([mark ","].intercalate parts ++ close :: rest) = some (items, rest) := by
  by_cases hne : parts = []
  · subst hne
    cases h
    rw [List.intercalate_nil, List.nil_append, listUpTo, expect_self]
  · have hstops : Stops 1 (close :: rest) := by
      have hall : ∀ close ∈ closers, strength close < 1 := by decide
      exact stops_cons (hall close hclose) rest
    have hnil : ∀ part ∈ parts, part ≠ [] := by
      intro part hpart
      obtain ⟨t, ts, rfl, -⟩ := hopens part hpart
      exact List.cons_ne_nil _ _
    have hlength : parts.length ≤ ([mark ","].intercalate parts ++ close :: rest).length := by
      rw [List.length_append]
      exact Nat.le_trans (length_le_intercalate hnil) (Nat.le_add_right _ _)
    have hexpect : expect close ([mark ","].intercalate parts ++ close :: rest) = none := by
      obtain ⟨t, ts, heq, ht⟩ := opens_intercalate hopens hne
      rw [heq, List.cons_append, expect, if_neg]
      rintro rfl
      exact ht hclose
    rw [listUpTo, hexpect]
    dsimp only
    rw [separated_append h hne hstops hlength]
    simp only [Option.bind_eq_bind, Option.bind_some]
    rw [expect_self]
    rfl

end Lists

section Levels

variable [Lexis] {inner : Parser Expr} {p q : ℕ}
  {tokens : List Token} {e : Expr}

/-- The level of the grammar for expressions that bind at least as tight as `p`. -/
def level (inner : Parser Expr) : ℕ → Parser Expr
  | 0 | 1 => expression (assignmentWith inner)
  | 2 => assignmentWith inner
  | 3 => conditional inner
  | 4 => shortCircuit inner
  | 5 => conjunction inner
  | i + 6 =>
    if i < 10 then binary inner (levels.drop i)
    else if i = 10 then postfixed inner
    else if i < 13 then access inner true
    else primary inner

/-! ### From a level to the next looser one -/

omit [Lexis] in
/-- A single item is read alone. -/
lemma separated_one (h : Reads inner 2 tokens e) (hrest : Stops 1 rest)
    (n : ℕ) : separated inner (n + 1) (tokens ++ rest) = some ([e], rest) := by
  rw [separated, h rest (hrest.mono (by decide))]
  simp only [Option.bind_eq_bind, Option.bind_some]
  rw [hrest.expect_eq_none (by decide)]
  rfl

omit [Lexis] in
/-- An assignment is an expression. -/
lemma Reads.expression (hne : tokens ≠ []) (h : Reads inner 2 tokens e) :
    Reads (expression inner) 1 tokens e := by
  intro rest hrest
  obtain ⟨n, hn⟩ : ∃ n, (tokens ++ rest).length = n + 1 :=
    Nat.exists_eq_add_one.2 (List.length_pos_of_ne_nil (List.append_ne_nil_of_left_ne_nil hne _))
  rw [Grammar.expression, hn, separated_one h hrest]
  rfl

/-- A conditional takes an assignment behind it as part of its last branch, so it is only read in
front of what ends an assignment. -/
lemma Reads.assignmentWith (h : Reads (conditional inner) 2 tokens e) :
    Reads (assignmentWith inner) 2 tokens e := by
  intro rest hrest
  rw [Grammar.assignmentWith, h rest hrest]
  cases rest with
  | nil => rfl
  | cons t rest =>
    simp only [Option.bind_eq_bind, Option.bind_some]
    rw [hrest.lookup_eq_none (by decide)]
    rfl

/-- A short circuit is a conditional. -/
lemma Reads.conditional (h : Reads (shortCircuit inner) 4 tokens e) :
    Reads (conditional inner) 3 tokens e := by
  intro rest hrest
  rw [Grammar.conditional, h rest (hrest.mono (by decide))]
  simp only [Option.bind_eq_bind, Option.bind_some]
  rw [hrest.expect_eq_none (by decide)]
  rfl

omit [Lexis] in
/-- If `??` follows the first operand, a chain of conjunctions or disjunctions ends in front of
it. -/
lemma leftGrouped_coalescing {table : Table} (htable : table.lookup (mark "??") = none)
    {operand : Parser Expr} {rest behind : List Token}
    (h : operand tokens = some (e, rest)) (hrest : expect (mark "??") rest = some behind) :
    leftGrouped table operand tokens = some (e, rest) := by
  cases rest with
  | nil => cases hrest
  | cons t rest =>
    have ht : t = mark "??" := by
      by_contra hne
      rw [expect, if_neg hne] at hrest
      cases hrest
    subst ht
    rw [leftGrouped, h]
    simp only [Option.bind_eq_bind, Option.bind_some, List.length_cons]
    rw [chain, htable]

/-- What the level of disjunctions reads in front of anything but `??` is read at the level of both
disjunctions and `??`. -/
lemma Reads.shortCircuit
    (h : Reads (leftGrouped disjunctions (conjunction inner)) 4 tokens e) :
    Reads (shortCircuit inner) 4 tokens e := by
  intro rest hrest
  have hread := h rest hrest
  -- the first operand is read, since the chain that starts with it is
  cases hfirst : Grammar.binary inner levels (tokens ++ rest) with
  | none =>
    rw [leftGrouped, conjunction, leftGrouped, hfirst] at hread
    cases hread
  | some first =>
    obtain ⟨e', behind⟩ := first
    rw [Grammar.shortCircuit, hfirst]
    simp only [Option.bind_eq_bind, Option.bind_some]
    cases hexpect : expect (mark "??") behind with
    | none => exact hread
    | some more =>
      -- then both chains have stopped in front of `??`, which is not behind the expression
      have hconjunction : Grammar.conjunction inner (tokens ++ rest) = some (e', behind) :=
        leftGrouped_coalescing (by decide) hfirst hexpect
      rw [leftGrouped_coalescing (by decide) hconjunction hexpect] at hread
      cases hread
      rw [hrest.expect_eq_none (by decide)] at hexpect
      cases hexpect

/-- A conjunction is a short circuit. -/
lemma Reads.shortCircuit_conjunction (h : Reads (conjunction inner) 5 tokens e) :
    Reads (Grammar.shortCircuit inner) 4 tokens e :=
  Reads.shortCircuit (h.spine.reads (by decide) (by decide))

/-- A binary operation is a conjunction. -/
lemma Reads.conjunction (h : Reads (binary inner levels) 6 tokens e) :
    Reads (conjunction inner) 5 tokens e :=
  h.spine.reads (by decide) (by decide)

omit [Lexis] in
/-- The entries of the level `i` of binary operators have strength `i + 6`. -/
lemma strength_levels {i : ℕ} {table : Table} (htable : levels[i]? = some table) :
    ∀ entry ∈ table, strength entry.1 = i + 6 := by
  have hall : ∀ entry ∈ levels.zipIdx, ∀ e ∈ entry.1, strength e.1 = entry.2 + 6 := by
    decide
  exact hall (table, i) (List.mk_mem_zipIdx_iff_getElem?.2 htable)

/-- A tighter binary operation is one of the next level. -/
lemma Reads.binary {i : ℕ} (hi : i < levels.length)
    (h : Reads (binary inner (levels.drop (i + 1))) (i + 7) tokens e) :
    Reads (binary inner (levels.drop i)) (i + 6) tokens e := by
  rw [List.drop_eq_getElem_cons hi]
  have hstrength := strength_levels (List.getElem?_eq_getElem hi)
  exact h.spine.reads (fun entry hentry => Nat.le_of_eq (hstrength entry hentry).symm)
    (Nat.le_succ _)

/-- No operand opens with an operator that stands in front of one, or with `new`. -/
lemma primary_reserved (ht : t ∈ word "new" :: prefixes.map Prod.fst) (rest : List Token) :
    primary inner (t :: rest) = none := by
  have hcases : t = word "new" ∨ t = mark "-" ∨ t = mark "+" ∨ t = mark "!" ∨ t = mark "~" ∨
      t = mark "++" ∨ t = mark "--" ∨ t = word "typeof" := by
    simpa [prefixes] using ht
  rcases hcases with rfl | rfl | rfl | rfl | rfl | rfl | rfl | rfl <;> rfl

lemma head_eq_primary (ht : t ≠ word "new") (rest : List Token) :
    head inner (t :: rest) = primary inner (t :: rest) := by
  rw [head, if_neg ht]

/-- An expression that opens with an operator in front of its operand is none of the levels that
bind tighter. -/
lemma postfixed_prefixed {op : UnaryOp} (ht : prefixes.lookup t = some op) (rest : List Token) :
    postfixed inner (t :: rest) = none := by
  obtain ⟨before, behind, heq, -⟩ := List.lookup_eq_some_iff.1 ht
  have hmem : t ∈ prefixes.map Prod.fst := by
    rw [heq]
    simp
  have hnew : t ≠ word "new" := by
    rintro rfl
    exact absurd hmem (by decide)
  rw [postfixed, access, head_eq_primary hnew, primary_reserved (List.mem_cons_of_mem _ hmem)]
  rfl

/-- A postfix expression is a unary one. -/
lemma Reads.unary (hne : tokens ≠ []) (h : Reads (postfixed inner) 16 tokens e) :
    Reads (unary inner) 15 tokens e := by
  intro rest hrest
  have hread := h rest (hrest.mono (by decide))
  obtain ⟨t, ts, rfl⟩ := List.exists_cons_of_ne_nil hne
  rw [List.cons_append] at hread ⊢
  cases hlookup : prefixes.lookup t with
  | none => rw [Grammar.unary, hlookup, hread]
  | some op => rw [postfixed_prefixed hlookup] at hread; cases hread

/-- An operator in front of an operand. -/
lemma Reads.unary_cons {op : UnaryOp} (ht : prefixes.lookup t = some op)
    (htarget : op.isUpdate = true → isTarget e = true)
    (h : Reads (Grammar.unary inner) 15 tokens e) :
    Reads (Grammar.unary inner) 15 (t :: tokens) (.unary op e) := by
  intro rest hrest
  have hcheck : (op.isUpdate && !isTarget e) = false := by
    cases hop : op.isUpdate with
    | false => rfl
    | true => rw [htarget hop]; rfl
  rw [List.cons_append, Grammar.unary, ht]
  dsimp only
  rw [h rest hrest]
  simp only [Option.bind_eq_bind, Option.bind_some]
  rw [hcheck]
  rfl

/-- An access is a postfix expression. -/
lemma Reads.postfixed (h : Reads (access inner true) 17 tokens e) :
    Reads (postfixed inner) 16 tokens e := by
  intro rest hrest
  rw [Grammar.postfixed, h rest (hrest.mono (by decide))]
  cases rest with
  | nil => rfl
  | cons t rest =>
    simp only [Option.bind_eq_bind, Option.bind_some]
    rw [hrest.lookup_eq_none (by decide)]
    rfl

/-- An operator behind a target; nothing carries the whole on. -/
lemma Reads.postfixed_append {op : UpdateOp} (ht : updates.lookup t = some op)
    (htarget : isTarget e = true) (h : Reads (access inner true) 17 tokens e) :
    Reads (Grammar.postfixed inner) 16 (tokens ++ [t]) (.update op e) := by
  intro rest _
  have hstops : Stops 17 (t :: rest) := by
    refine stops_cons ?_ rest
    obtain ⟨before, behind, heq, -⟩ := List.lookup_eq_some_iff.1 ht
    have hall : ∀ entry ∈ updates, strength entry.1 < 17 := by decide
    exact hall (t, op) (by rw [heq]; simp)
  rw [List.append_assoc, List.singleton_append, Grammar.postfixed, h _ hstops]
  simp only [Option.bind_eq_bind, Option.bind_some]
  rw [ht]
  simp only [htarget]
  rfl

/-! ### Objects and what follows them -/

omit [Lexis] in
/-- No token binds tighter than an access. -/
lemma strength_lt (t : Token) : strength t < 19 := by
  unfold strength
  cases hlookup : strengths.lookup t with
  | none => decide
  | some p =>
    obtain ⟨before, behind, heq, -⟩ := List.lookup_eq_some_iff.1 hlookup
    have hall : ∀ entry ∈ strengths, entry.2 < 19 := by decide
    exact hall (t, p) (by rw [heq]; simp)

omit [Lexis] in
/-- Everything ends a primary expression. -/
lemma stops_primary (rest : List Token) : Stops 19 rest :=
  fun t _ => strength_lt t

/-- The object is read and what follows it is read next. -/
def Trails (inner : Parser Expr) (calls : Bool)
    (tokens : List Token) (e : Expr) : Prop :=
  ∀ rest, ∃ n, rest.length ≤ n ∧
    access inner calls (tokens ++ rest) = suffixes inner calls n e rest

/-- A head can have suffixes. -/
lemma Trails.of_head {calls : Bool}
    (h : ∀ rest, head inner (tokens ++ rest) = some (e, rest)) :
    Trails inner calls tokens e := by
  intro rest
  refine ⟨rest.length, Nat.le_refl _, ?_⟩
  rw [access, h rest]
  rfl

/-- So can a primary expression. -/
lemma Reads.trails (h : Reads (primary inner) 19 tokens e) (calls : Bool) :
    Trails inner calls tokens e := by
  refine Trails.of_head fun rest => ?_
  have hread := h rest (stops_primary rest)
  cases tokens with
  | nil =>
    have hnil := h [] (stops_primary [])
    cases hnil
  | cons t tokens =>
    have hnew : t ≠ word "new" := by
      rintro rfl
      rw [List.cons_append, primary_reserved List.mem_cons_self] at hread
      cases hread
    rw [List.cons_append, head_eq_primary hnew]
    exact hread

omit [Lexis] in
/-- Suffixes end where accesses stop. -/
lemma suffixes_stops {calls : Bool} (hrest : Stops 18 rest) (n : ℕ) :
    suffixes inner calls n e rest = some (e, rest) := by
  cases n with
  | zero => rfl
  | succ n =>
    cases rest with
    | nil => rfl
    | cons t rest =>
      have hcall : ¬ (t = mark "(" ∧ calls = true) := fun h => hrest.ne (by decide) h.1
      rw [suffixes, if_neg (hrest.ne (by decide)), if_neg (hrest.ne (by decide)), if_neg hcall]

/-- What can have suffixes is an access. -/
lemma Trails.reads (h : Trails inner true tokens e) :
    Reads (access inner true) 18 tokens e := by
  intro rest hrest
  obtain ⟨n, -, hread⟩ := h rest
  rw [hread, suffixes_stops hrest]

/-- A member is a suffix. -/
lemma Trails.member {calls : Bool} (h : Trails inner calls tokens e) (name : String) :
    Trails inner calls (tokens ++ [mark ".", word name]) (.member e name) := by
  intro rest
  obtain ⟨n, hn, hread⟩ := h (mark "." :: word name :: rest)
  simp only [List.length_cons] at hn
  obtain ⟨n, rfl⟩ : ∃ m, n = m + 1 := Nat.exists_eq_add_one.2 (by omega)
  refine ⟨n, by omega, ?_⟩
  rw [List.append_assoc]
  exact hread

/-- So is an index. -/
lemma Trails.index {calls : Bool} {key : Expr} {keyTokens : List Token}
    (h : Trails inner calls tokens e)
    (hkey : Reads (Grammar.expression inner) 1 keyTokens key) :
    Trails inner calls (tokens ++ mark "[" :: keyTokens ++ [mark "]"]) (.index e key) := by
  intro rest
  obtain ⟨n, hn, hread⟩ := h (mark "[" :: (keyTokens ++ mark "]" :: rest))
  simp only [List.length_cons, List.length_append] at hn
  obtain ⟨n, rfl⟩ : ∃ m, n = m + 1 := Nat.exists_eq_add_one.2 (by omega)
  refine ⟨n, by omega, ?_⟩
  have hclose := hkey (mark "]" :: rest) (stops_cons (by decide) rest)
  have htokens : tokens ++ mark "[" :: keyTokens ++ [mark "]"] ++ rest =
      tokens ++ mark "[" :: (keyTokens ++ mark "]" :: rest) := by simp
  rw [htokens, hread, suffixes, if_neg (by decide), if_pos rfl, hclose]
  simp only [Option.bind_eq_bind, Option.bind_some]
  rw [expect_self]
  rfl

/-- So is a call. -/
lemma Trails.call {arguments : List Expr} {argumentTokens : List Token}
    (h : Trails inner true tokens e)
    (harguments : ∀ rest, listUpTo inner (mark ")") (argumentTokens ++ mark ")" :: rest) =
      some (arguments, rest)) :
    Trails inner true (tokens ++ mark "(" :: argumentTokens ++ [mark ")"])
      (.call e arguments) := by
  intro rest
  obtain ⟨n, hn, hread⟩ := h (mark "(" :: (argumentTokens ++ mark ")" :: rest))
  simp only [List.length_cons, List.length_append] at hn
  obtain ⟨n, rfl⟩ : ∃ m, n = m + 1 := Nat.exists_eq_add_one.2 (by omega)
  refine ⟨n, by omega, ?_⟩
  have htokens : tokens ++ mark "(" :: argumentTokens ++ [mark ")"] ++ rest =
      tokens ++ mark "(" :: (argumentTokens ++ mark ")" :: rest) := by simp
  rw [htokens, hread, suffixes, if_neg (by decide), if_neg (by decide), if_pos ⟨rfl, rfl⟩,
    harguments]
  rfl

/-- The constructor of `new` ends in front of the first arguments. -/
lemma head_new {arguments : List Expr} {argumentTokens : List Token}
    (h : Trails inner false tokens e)
    (harguments : ∀ rest, listUpTo inner (mark ")") (argumentTokens ++ mark ")" :: rest) =
      some (arguments, rest)) (rest : List Token) :
    head inner (word "new" :: tokens ++ mark "(" :: argumentTokens ++ [mark ")"] ++ rest) =
      some (.new e arguments, rest) := by
  obtain ⟨n, -, hread⟩ := h (mark "(" :: (argumentTokens ++ mark ")" :: rest))
  have hstop : suffixes inner false n e (mark "(" :: (argumentTokens ++ mark ")" :: rest)) =
      some (e, mark "(" :: (argumentTokens ++ mark ")" :: rest)) := by
    cases n with
    | zero => rfl
    | succ n => rw [suffixes, if_neg (by decide), if_neg (by decide), if_neg (by simp)]
  rw [hstop, access] at hread
  have htokens : word "new" :: tokens ++ mark "(" :: argumentTokens ++ [mark ")"] ++ rest =
      word "new" :: (tokens ++ mark "(" :: (argumentTokens ++ mark ")" :: rest)) := by simp
  rw [htokens, head, if_pos rfl]
  obtain ⟨⟨e', rest'⟩, hhead, hsuffixes⟩ := Option.bind_eq_some_iff.1 hread
  dsimp only at hsuffixes
  rw [hhead]
  simp only [Option.bind_eq_bind, Option.bind_some]
  rw [hsuffixes]
  simp only [Option.bind_some]
  rw [expect_self]
  simp only [Option.bind_some]
  rw [harguments]
  rfl

omit [Lexis] in
/-- Expressions between commas are read in sequence. -/
lemma reads_comma {parts : List (List Token)} {items : List Expr}
    (h : List.Forall₂ (Reads inner 2) parts items) (hnil : ∀ part ∈ parts, part ≠ [])
    (hitems : 2 ≤ items.length) :
    Reads (expression inner) 1 ([mark ","].intercalate parts) (.comma items) := by
  intro rest hrest
  have hne : parts ≠ [] := by
    rintro rfl
    cases h
    exact absurd hitems (by decide)
  have hlength : parts.length ≤ ([mark ","].intercalate parts ++ rest).length := by
    rw [List.length_append]
    exact Nat.le_trans (length_le_intercalate hnil) (Nat.le_add_right _ _)
  rw [expression, separated_append h hne hrest hlength]
  match items, hitems with
  | _ :: _ :: _, _ => rfl

omit [Lexis] in
/-- A property is read with its key. -/
lemma reads_property {name : String} {key : Token} (hkey : key = word name ∨ key = literal name)
    (h : Reads inner 2 tokens e) :
    Reads (property inner) 2 (key :: mark ":" :: tokens) (.mk name e) := by
  intro rest hrest
  have hread := h rest hrest
  rcases hkey with rfl | rfl
  · rw [List.cons_append, List.cons_append, property, expect_self]
    simp only [Option.bind_eq_bind, Option.bind_some]
    rw [hread]
    rfl
  · rw [List.cons_append, List.cons_append, property, expect_self]
    simp only [Option.bind_eq_bind, Option.bind_some]
    rw [hread]
    rfl

/-! ### Brackets -/

/-- Parentheses make a primary expression. -/
lemma reads_parens (h : Reads (expression inner) 1 tokens e) :
    Reads (primary inner) 19 (mark "(" :: tokens ++ [mark ")"]) e := by
  intro rest _
  have hread := h (mark ")" :: rest) (stops_cons (by decide) rest)
  rw [List.append_assoc, List.cons_append, List.singleton_append, primary, if_pos rfl, hread]
  simp only [Option.bind_eq_bind, Option.bind_some]
  rw [expect_self]
  rfl

/-- So do brackets. -/
lemma reads_array {items : List Expr}
    (h : ∀ rest, listUpTo inner (mark "]") (tokens ++ mark "]" :: rest) = some (items, rest)) :
    Reads (primary inner) 19 (mark "[" :: tokens ++ [mark "]"]) (.array items) := by
  intro rest _
  rw [List.append_assoc, List.cons_append, List.singleton_append, primary, if_neg (by decide),
    if_pos rfl, h rest]
  rfl

/-- So do braces. -/
lemma reads_object {properties : List Property}
    (h : ∀ rest, listUpTo (property inner) (mark "\x7d") (tokens ++ mark "\x7d" :: rest) =
      some (properties, rest)) :
    Reads (primary inner) 19 (mark "\x7b" :: tokens ++ [mark "\x7d"])
      (.object properties) := by
  intro rest _
  rw [List.append_assoc, List.cons_append, List.singleton_append, primary, if_neg (by decide),
    if_neg (by decide), if_pos rfl, h rest]
  rfl

/-! ### The loosest levels -/

section Loosest

variable {e₁ e₂ : Expr} {tokens₁ tokens₂ : List Token}

/-- A chain of `??` is read if `??` follows its first operand. -/
lemma reads_coalescing (hfirst : ∀ rest, Stops 4 rest → ∃ e' behind,
      binary inner levels (tokens ++ rest) = some (e', mark "??" :: behind))
    (h : Spine coalescings (binary inner levels) 6 tokens e) :
    Reads (shortCircuit inner) 4 tokens e := by
  intro rest hrest
  obtain ⟨e', behind, hread⟩ := hfirst rest hrest
  rw [shortCircuit, hread]
  simp only [Option.bind_eq_bind, Option.bind_some]
  rw [expect_self]
  exact h.reads (by decide) (by decide) rest hrest

/-- A conditional is read with its branches. -/
lemma reads_conditional (h : Reads (shortCircuit inner) 4 tokens e)
    (h₁ : Reads inner 2 tokens₁ e₁) (h₂ : Reads inner 2 tokens₂ e₂) :
    Reads (conditional inner) 2 (tokens ++ mark "?" :: tokens₁ ++ mark ":" :: tokens₂)
      (.conditional e e₁ e₂) := by
  intro rest hrest
  have htokens : tokens ++ mark "?" :: tokens₁ ++ mark ":" :: tokens₂ ++ rest =
      tokens ++ mark "?" :: (tokens₁ ++ mark ":" :: (tokens₂ ++ rest)) := by simp
  rw [htokens, conditional, h _ (stops_cons (by decide) _)]
  simp only [Option.bind_eq_bind, Option.bind_some]
  rw [expect_self]
  dsimp only
  rw [h₁ _ (stops_cons (by decide) _)]
  simp only [Option.bind_some]
  rw [expect_self]
  simp only [Option.bind_some]
  rw [h₂ rest hrest]
  rfl

/-- An assignment is read with its operator. -/
lemma reads_assign {op : Option BinaryOp} (ht : assignments.lookup t = some op)
    (htarget : isTarget e = true) (h : Reads (conditional inner) 3 tokens e)
    (h₁ : Reads inner 2 tokens₁ e₁) :
    Reads (assignmentWith inner) 2 (tokens ++ t :: tokens₁) (.assign op e e₁) := by
  intro rest hrest
  have hstops : Stops 3 (t :: (tokens₁ ++ rest)) := by
    refine stops_cons ?_ _
    obtain ⟨before, behind, heq, -⟩ := List.lookup_eq_some_iff.1 ht
    have hall : ∀ entry ∈ assignments, strength entry.1 < 3 := by decide
    exact hall (t, op) (by rw [heq]; simp)
  rw [List.append_assoc, List.cons_append, assignmentWith, h _ hstops]
  simp only [Option.bind_eq_bind, Option.bind_some]
  rw [ht]
  simp only [htarget, if_true]
  rw [h₁ rest hrest]
  rfl

end Loosest

/-! ### All levels -/

lemma level_binary {i : ℕ} (hi : i < 10) :
    level inner (i + 6) = binary inner (levels.drop i) :=
  if_pos hi

lemma level_primary {i : ℕ} (hi : 13 ≤ i) :
    level inner (i + 6) = primary inner := by
  rw [level, if_neg (by omega), if_neg (by omega), if_neg (by omega)]

/-- What a level reads, the next looser one reads. -/
lemma Reads.step (hne : tokens ≠ []) (h : Reads (level inner (p + 1)) (p + 1) tokens e) :
    Reads (level inner p) p tokens e := by
  match p with
  | 0 => exact fun rest hrest => h rest (hrest.mono (Nat.le_succ 0))
  | 1 => exact Reads.expression hne h
  | 2 => exact Reads.assignmentWith fun rest hrest => h rest (hrest.mono (Nat.le_succ 2))
  | 3 => exact Reads.conditional h
  | 4 => exact Reads.shortCircuit_conjunction h
  | 5 => exact Reads.conjunction h
  | i + 6 =>
    by_cases hbinary : i < 8
    · rw [Nat.add_right_comm, level_binary (by omega)] at h
      rw [level_binary (by omega)]
      exact Reads.binary hbinary h
    · by_cases hprimary : 13 ≤ i
      · rw [Nat.add_right_comm, level_primary (by omega)] at h
        rw [level_primary hprimary]
        exact fun rest hrest => h rest (hrest.mono (by omega))
      · -- what is left are the levels of operators in front, of operators behind, and of objects
        obtain rfl | rfl | rfl | rfl | rfl : i = 8 ∨ i = 9 ∨ i = 10 ∨ i = 11 ∨ i = 12 := by omega
        · exact fun rest hrest => h rest (hrest.mono (by decide))
        · exact Reads.unary hne h
        · exact Reads.postfixed h
        · exact fun rest hrest => h rest (hrest.mono (by decide))
        · exact (Reads.trails h true).reads

/-- What a level reads, the weaker levels read. -/
lemma Reads.of_le (hne : tokens ≠ []) (hpq : p ≤ q)
    (h : Reads (level inner q) q tokens e) : Reads (level inner p) p tokens e := by
  induction hpq with
  | refl => exact h
  | step _ ih => exact ih (h.step hne)

end Levels

end Grammar

end ScriptCompiler.Script
