import ScriptCompiler.Proofs.Resolution.Interface
import ScriptCompiler.Metadata.Signature

/-!
# Interfaces by their paths

The path of an interface leads through namespaces and then through types, from the outermost one
to the interface itself.  It is written in two ways, with type arguments and dots in stored names
and with arities and `+` in full names.  The normal form of both is the path with dots in between,
and since no name on the path holds a dot, the path can be read off its normal form.
-/

namespace ScriptCompiler.Resolution

/-- A name on a path: not empty, and without the marks that stand between names and behind them. -/
def IsPart (name : String) : Prop :=
  name ≠ "" ∧ ∀ c ∈ name.toList, c ∉ ['<', '>', '.', '+', '\x60']

instance (name : String) : Decidable (IsPart name) :=
  @instDecidableAnd _ _ _ (List.decidableBAll (fun c => c ∉ ['<', '>', '.', '+', '\x60']) _)

/-- A type on a path, with its number of type parameters and with type arguments as a stored name
spells them, however many. -/
structure PathType where
  name : String
  arity : Nat
  arguments : List String
  isPart : IsPart name
  balanced : ∀ text ∈ arguments, Balanced text.toList

/-- The name with its arguments. -/
def PathType.spelling (t : PathType) : String :=
  Metadata.genericText t.name t.arguments

/-- The name with its arity. -/
def PathType.fullName (t : PathType) : String :=
  if t.arity = 0 then t.name else t.name ++ "\x60" ++ toString t.arity

/-- A path through namespaces and at least one type. -/
structure InterfacePath where
  spaces : List String
  types : List PathType
  isPart : ∀ name ∈ spaces, IsPart name
  ne_nil : types ≠ []

namespace InterfacePath

/-- The names on the path. -/
def names (i : InterfacePath) : List String :=
  i.spaces ++ i.types.map (·.name)

/-- A dot behind each namespace, and `mark` between the types. -/
def write (i : InterfacePath) (mark : String) (text : PathType → String) : String :=
  i.spaces.foldr (fun name rest => name ++ "." ++ rest) (mark.intercalate (i.types.map text))

/-- The path as stored names spell it. -/
def spelling (i : InterfacePath) : String :=
  i.write "." PathType.spelling

/-- The path as metadata has it. -/
def fullName (i : InterfacePath) : String :=
  i.write "+" PathType.fullName

end InterfacePath

/-! ## What is kept -/

/-- Nothing of a name is dropped. -/
theorem leaves_name {name : String} (h : IsPart name) (tail : PartTail) :
    Leaves (name.toList ++ tail.chars) name.toList := by
  have hkept : ∀ cs : List Char, (∀ c ∈ cs, c ∉ ['<', '>', '.', '+', '\x60']) → ∀ rest,
      plainInterface 0 false (cs ++ rest) = cs ++ plainInterface 0 false rest := by
    intro cs
    induction cs with
    | nil => exact fun _ _ => rfl
    | cons c cs ih =>
      intro hcs rest
      have hc := hcs c List.mem_cons_self
      simp only [List.mem_cons, List.not_mem_nil, or_false, not_or] at hc
      obtain ⟨hopen, hclose, -, hplus, htick⟩ := hc
      have hrest := ih fun d hd => hcs d (List.mem_cons_of_mem _ hd)
      rw [List.cons_append, plainInterface, if_neg hopen, if_neg hclose, if_neg (by decide),
        if_neg htick, if_neg (by simp), if_neg hplus, hrest, List.cons_append]
  refine leaves_part (fun c hc => ?_) (hkept _ h.2) tail
  have hmarks := h.2 c hc
  simp only [List.mem_cons, not_or] at hmarks
  exact ⟨hmarks.1, hmarks.2.1⟩

theorem balanced_intercalate {texts : List String} (h : ∀ text ∈ texts, Balanced text.toList) :
    Balanced (",".intercalate texts).toList := by
  induction texts with
  | nil => exact .nil
  | cons text rest ih =>
    have hrest := ih fun text ht => h text (List.mem_cons_of_mem _ ht)
    have htext := h text List.mem_cons_self
    cases rest with
    | nil => rwa [String.intercalate_singleton]
    | cons next rest =>
      rw [String.intercalate_cons_cons, String.toList_append, String.toList_append,
        List.append_assoc]
      exact htext.append (.char (by decide) (by decide) hrest)

theorem PathType.leaves_spelling (t : PathType) : Leaves t.spelling.toList t.name.toList := by
  unfold spelling
  cases harguments : t.arguments with
  | nil =>
    have hleaves := leaves_name t.isPart (PartTail.ofCount 0)
    rwa [show (PartTail.ofCount 0).chars = [] from rfl, List.append_nil] at hleaves
  | cons text texts =>
    have hbalanced := balanced_intercalate t.balanced
    rw [harguments] at hbalanced
    have hleaves := leaves_name t.isPart
      { arguments := some (",".intercalate (text :: texts)), balanced := by simpa using hbalanced }
    simpa [PartTail.chars, Metadata.genericText] using hleaves

theorem PathType.leaves_fullName (t : PathType) : Leaves t.fullName.toList t.name.toList := by
  have hleaves := leaves_name t.isPart (PartTail.ofCount t.arity)
  unfold fullName
  split
  · next hzero => simpa [PartTail.chars, PartTail.ofCount, hzero] using hleaves
  · next hpos =>
    simpa [PartTail.chars, PartTail.ofCount, hpos, Nat.toString_eq_repr, Nat.repr] using hleaves

/-- The names with dots in between. -/
def dotted (names : List String) : List Char :=
  ['.'].intercalate (names.map String.toList)

theorem dotted_cons {name : String} {names : List String} (h : names ≠ []) :
    dotted (name :: names) = name.toList ++ '.' :: dotted names := by
  obtain ⟨next, rest, rfl⟩ := List.exists_cons_of_ne_nil h
  simp [dotted, List.intercalate_cons_cons]

namespace InterfacePath

theorem leaves_write (i : InterfacePath) {mark : Char} (hmark : mark = '.' ∨ mark = '+')
    {text : PathType → String} (htext : ∀ t, Leaves (text t).toList t.name.toList) :
    Leaves (i.write (String.singleton mark) text).toList (dotted i.names) := by
  obtain ⟨spaces, types, hspaces, hne⟩ := i
  simp only [write, names]
  induction spaces with
  | nil =>
    obtain ⟨t, types, rfl⟩ := List.exists_cons_of_ne_nil hne
    clear hne
    induction types generalizing t with
    | nil => simpa [dotted] using htext t
    | cons next types ih =>
      have hleaves := (htext t).append (ih next) hmark
      change Leaves _ (dotted (t.name :: (next :: types).map (·.name)))
      rw [dotted_cons (by simp)]
      simpa [String.intercalate_cons_cons] using hleaves
  | cons name spaces ih =>
    have hname := leaves_name (hspaces name List.mem_cons_self) (PartTail.ofCount 0)
    have hrest := ih fun name hmem => hspaces name (List.mem_cons_of_mem _ hmem)
    have hleaves := hname.append hrest (.inl rfl)
    rw [List.cons_append, dotted_cons (by simp [hne])]
    simpa [PartTail.chars, PartTail.ofCount] using hleaves

theorem leaves_spelling (i : InterfacePath) : Leaves i.spelling.toList (dotted i.names) :=
  i.leaves_write (.inl rfl) PathType.leaves_spelling

theorem leaves_fullName (i : InterfacePath) : Leaves i.fullName.toList (dotted i.names) :=
  i.leaves_write (.inr rfl) PathType.leaves_fullName

theorem isPart_of_mem_names (i : InterfacePath) {name : String} (h : name ∈ i.names) :
    IsPart name := by
  rcases List.mem_append.mp h with hspace | htype
  · exact i.isPart name hspace
  · obtain ⟨t, -, rfl⟩ := List.mem_map.mp htype
    exact t.isPart

/-- The names are what stands between the dots. -/
theorem splitOn_dotted (i : InterfacePath) :
    (dotted i.names).splitOn '.' = i.names.map String.toList := by
  refine List.splitOn_intercalate '.' ?_ (by simp [names, i.ne_nil])
  intro cs hcs hdot
  obtain ⟨name, hname, rfl⟩ := List.mem_map.mp hcs
  exact (i.isPart_of_mem_names hname).2 '.' hdot (by decide)

/-- Of an empty text nothing is kept, so the only name would be empty. -/
theorem spelling_ne_empty (i : InterfacePath) : i.spelling ≠ "" := by
  intro hempty
  have hplain := i.leaves_spelling.normalizeInterface_eq
  rw [hempty, show normalizeInterface "" = String.ofList [] from rfl, String.ofList_inj] at hplain
  have hnames := i.splitOn_dotted
  rw [← hplain, List.splitOn_nil] at hnames
  obtain ⟨name, hname, htext⟩ := List.mem_map.mp (hnames ▸ List.mem_singleton_self [])
  exact (i.isPart_of_mem_names hname).1 (String.toList_eq_nil_iff.mp htext)

/-- The stored name of an explicit implementation falls into the interface as it is spelled and the
member.  The interface has the normal form of its full name, and no other path has it. -/
theorem splitExplicitName_path (i : InterfacePath) {member : String} (hmember : IsSimple member) :
    splitExplicitName (i.spelling ++ "." ++ member) = some (i.spelling, member) ∧
      normalizeInterface i.spelling = normalizeInterface i.fullName ∧
      ∀ j : InterfacePath,
        normalizeInterface i.spelling = normalizeInterface j.spelling ↔ i.names = j.names := by
  refine ⟨?_, ?_, fun j => ?_⟩
  · exact splitExplicitName_append i.spelling_ne_empty i.leaves_spelling.balanced hmember
  · rw [i.leaves_spelling.normalizeInterface_eq, i.leaves_fullName.normalizeInterface_eq]
  · rw [i.leaves_spelling.normalizeInterface_eq, j.leaves_spelling.normalizeInterface_eq,
      String.ofList_inj]
    constructor
    · intro h
      have hnames := congrArg (List.splitOn '.') h
      rw [i.splitOn_dotted, j.splitOn_dotted] at hnames
      exact (List.map_inj_right fun _ _ => String.toList_inj.mp).mp hnames
    · intro h
      rw [h]

/-- An interface inside a generic type, with brackets and dots inside its arguments. -/
def sample : InterfacePath where
  spaces := ["Acme"]
  types := [
    { name := "Outer", arity := 2, arguments := ["A.B", "C<D.E>"], isPart := by decide,
      balanced := by
        have hinner : Balanced "D.E".toList := .of_unbracketed (by decide)
        have hlast : Balanced "C<D.E>".toList :=
          .char (by decide) (by decide) (.bracket hinner .nil)
        simpa using ⟨.of_unbracketed (by decide), hlast⟩ },
    { name := "IInner", arity := 0, arguments := [], isPart := by decide, balanced := by simp }]
  isPart := by decide
  ne_nil := by simp

theorem splitExplicitName_path_sample :
    splitExplicitName "Acme.Outer<A.B,C<D.E>>.IInner.Get" =
      some ("Acme.Outer<A.B,C<D.E>>.IInner", "Get") ∧
    normalizeInterface "Acme.Outer<A.B,C<D.E>>.IInner" =
      normalizeInterface "Acme.Outer\x602+IInner" :=
  have h := splitExplicitName_path sample (show IsSimple "Get" by decide)
  ⟨h.1, h.2.1⟩

end InterfacePath

end ScriptCompiler.Resolution
