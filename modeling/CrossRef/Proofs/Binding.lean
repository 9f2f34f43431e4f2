import CrossRef.Binding.Entity
import Mathlib.Data.List.Forall2

namespace CrossRef

/-- What sets off the parts of an identity. -/
def isMark (c : Char) : Bool := c = '#' ∨ c = '(' ∨ c = ')' ∨ c = ','

/-- A name that no part of an identity can be mistaken for. -/
def Plain (name : String) : Prop := ∀ c ∈ name.toList, isMark c = false

/-- The name that a type goes by: the qualified one, or else the binary one. -/
inductive ErasedType.GoesBy : ErasedType → String → Prop
  | qualified {name : String} {binary : Option String} :
      name ≠ "" → GoesBy (.named name binary) name
  | binary {name : String} : name ≠ "" → GoesBy (.named "" (some name)) name

/-- An entity known by its names alone. -/
inductive Symbol
  | type (name : String)
  | variable (owner name : String)
  | method (owner name : String) (parameters : List String)
  | constructor (owner : String) (parameters : List String)
  deriving DecidableEq

/-- An entity stands for a symbol when the types that it needs go by the names there. -/
inductive Entity.Denotes : Entity → Symbol → Prop
  | type {erased : ErasedType} {name : String} :
      erased.GoesBy name → Denotes (.type erased) (.type name)
  | variable {owner : ErasedType} {ownerName name : String} :
      owner.GoesBy ownerName → Denotes (.variable (some owner) name) (.variable ownerName name)
  | method {owner : ErasedType} {ownerName name : String} {parameters : List ErasedType}
      {names : List String} :
      owner.GoesBy ownerName → parameters.Forall₂ ErasedType.GoesBy names →
      Denotes (.method (some owner) name parameters) (.method ownerName name names)
  | constructor {owner : ErasedType} {ownerName : String} {parameters : List ErasedType}
      {names : List String} :
      owner.GoesBy ownerName → parameters.Forall₂ ErasedType.GoesBy names →
      Denotes (.constructor (some owner) parameters) (.constructor ownerName names)

/-- The names that a front end reports of a type. -/
def ErasedType.names : ErasedType → List String
  | .unresolved => []
  | .unsupported => []
  | .named qualified binary => qualified :: binary.toList

/-- The names that a front end reports of an entity. -/
def Entity.names : Entity → List String
  | .type erased => erased.names
  | .variable owner name => name :: owner.toList.flatMap ErasedType.names
  | .method owner name parameters => name :: (owner.toList ++ parameters).flatMap ErasedType.names
  | .constructor owner parameters => (owner.toList ++ parameters).flatMap ErasedType.names

namespace Symbol

def signature (parameters : List String) : String := "(" ++ ",".intercalate parameters ++ ")"

/-- The identity of whatever entity stands for a symbol. -/
def identity : Symbol → Binding
  | .type name => ⟨name⟩
  | .variable owner name => ⟨owner ++ "#" ++ name⟩
  | .method owner name parameters => ⟨owner ++ "#" ++ name ++ signature parameters⟩
  | .constructor owner parameters => ⟨owner ++ signature parameters⟩

end Symbol

theorem ErasedType.canonical?_eq_some_iff {erased : ErasedType} {name : String} :
    erased.canonical? = some name ↔ erased.GoesBy name := by
  constructor
  · intro h
    cases erased with
    | unresolved => simp [canonical?] at h
    | unsupported => simp [canonical?] at h
    | named qualified binary =>
      rw [canonical?] at h
      split at h
      case isTrue hne =>
        obtain rfl := Option.some.inj h
        exact .qualified hne
      case isFalse heq =>
        obtain rfl := not_not.1 heq
        obtain ⟨rfl, hne⟩ := Option.filter_eq_some_iff.1 h
        exact .binary (of_decide_eq_true hne)
  · intro h
    cases h with
    | qualified hne => rw [canonical?, if_pos hne]
    | binary hne => simp [canonical?, hne]

theorem ErasedType.mapM_canonical? (parameters : List ErasedType) (names : List String) :
    parameters.mapM canonical? = some names ↔ parameters.Forall₂ GoesBy names := by
  induction parameters generalizing names with
  | nil => simp [eq_comm]
  | cons erased rest ih =>
    rw [List.mapM_cons]
    simp only [Option.bind_eq_bind, Option.bind_eq_some_iff, Option.pure_def, Option.some.injEq,
      canonical?_eq_some_iff, ih]
    constructor
    · rintro ⟨name, hname, others, hothers, rfl⟩
      exact .cons hname hothers
    · rintro (- | ⟨hname, hothers⟩)
      exact ⟨_, hname, _, hothers, rfl⟩

theorem Entity.signature?_eq_some_iff {parameters : List ErasedType} {signature : String} :
    signature? parameters = some signature ↔
      ∃ names, parameters.Forall₂ ErasedType.GoesBy names ∧ Symbol.signature names = signature := by
  rw [signature?, Option.map_eq_some_iff]
  simp only [ErasedType.mapM_canonical?, Symbol.signature]

/-- An entity has an identity when it stands for a symbol, and then it has that of the symbol. -/
theorem Entity.canonical?_eq_some_iff {e : Entity} {b : Binding} :
    e.canonical? = some b ↔ ∃ s, e.Denotes s ∧ b = s.identity := by
  constructor
  · intro h
    cases e with
    | type erased =>
      obtain ⟨name, hname, rfl⟩ := Option.map_eq_some_iff.1 h
      exact ⟨_, .type (ErasedType.canonical?_eq_some_iff.1 hname), rfl⟩
    | «variable» owner name =>
      obtain ⟨erased, rfl, h⟩ := Option.bind_eq_some_iff.1 h
      obtain ⟨ownerName, howner, h⟩ := Option.bind_eq_some_iff.1 h
      obtain rfl := Option.some.inj h
      exact ⟨_, .variable (ErasedType.canonical?_eq_some_iff.1 howner), rfl⟩
    | method owner name parameters =>
      obtain ⟨erased, rfl, h⟩ := Option.bind_eq_some_iff.1 h
      obtain ⟨ownerName, howner, h⟩ := Option.bind_eq_some_iff.1 h
      obtain ⟨signature, hsignature, h⟩ := Option.bind_eq_some_iff.1 h
      obtain ⟨names, hnames, rfl⟩ := signature?_eq_some_iff.1 hsignature
      obtain rfl := Option.some.inj h
      exact ⟨_, .method (ErasedType.canonical?_eq_some_iff.1 howner) hnames, rfl⟩
    | constructor owner parameters =>
      obtain ⟨erased, rfl, h⟩ := Option.bind_eq_some_iff.1 h
      obtain ⟨ownerName, howner, h⟩ := Option.bind_eq_some_iff.1 h
      obtain ⟨signature, hsignature, h⟩ := Option.bind_eq_some_iff.1 h
      obtain ⟨names, hnames, rfl⟩ := signature?_eq_some_iff.1 hsignature
      obtain rfl := Option.some.inj h
      exact ⟨_, .constructor (ErasedType.canonical?_eq_some_iff.1 howner) hnames, rfl⟩
  · rintro ⟨s, h, rfl⟩
    cases h with
    | type hname =>
      rw [canonical?, ErasedType.canonical?_eq_some_iff.2 hname]
      rfl
    | «variable» howner =>
      simp [canonical?, ErasedType.canonical?_eq_some_iff.2 howner, Symbol.identity]
    | method howner hnames =>
      have hsignature := signature?_eq_some_iff.2 ⟨_, hnames, rfl⟩
      simp [canonical?, ErasedType.canonical?_eq_some_iff.2 howner, hsignature, Symbol.identity]
    | constructor howner hnames =>
      have hsignature := signature?_eq_some_iff.2 ⟨_, hnames, rfl⟩
      simp [canonical?, ErasedType.canonical?_eq_some_iff.2 howner, hsignature, Symbol.identity]

namespace Symbol

/-- Names are plain, and parameters have some. -/
def Legible : Symbol → Prop
  | .type name => Plain name
  | .variable owner name => Plain owner ∧ Plain name
  | .method owner name parameters =>
    Plain owner ∧ Plain name ∧ ∀ parameter ∈ parameters, Plain parameter ∧ parameter ≠ ""
  | .constructor owner parameters =>
    Plain owner ∧ ∀ parameter ∈ parameters, Plain parameter ∧ parameter ≠ ""

/-- The parameters in front of a closing parenthesis. -/
def readParameters (cs : List Char) : List String :=
  if cs.dropLast = [] then [] else (cs.dropLast.splitOn ',').map String.ofList

/-- The symbol that an identity is read as. -/
def read (cs : List Char) : Symbol :=
  let owner := String.ofList (cs.takeWhile fun c => !isMark c)
  match cs.dropWhile fun c => !isMark c with
  | [] => .type owner
  | '#' :: rest =>
    let name := String.ofList (rest.takeWhile fun c => !isMark c)
    match rest.dropWhile fun c => !isMark c with
    | [] => .variable owner name
    | _ :: rest => .method owner name (readParameters rest)
  | _ :: rest => .constructor owner (readParameters rest)

theorem takeWhile_plain {name : String} (h : Plain name) (rest : List Char)
    (hrest : ∀ c ∈ rest.head?, isMark c = true) :
    ((name.toList ++ rest).takeWhile fun c => !isMark c) = name.toList ∧
      ((name.toList ++ rest).dropWhile fun c => !isMark c) = rest := by
  have hname : ∀ c ∈ name.toList, (!isMark c) = true := by
    intro c hc
    rw [h c hc]
    rfl
  rw [List.takeWhile_append_of_pos hname, List.dropWhile_append_of_pos hname]
  cases rest with
  | nil => simp
  | cons c rest =>
    have hc : isMark c = true := hrest c rfl
    simp [hc]

theorem readParameters_signature {parameters : List String}
    (h : ∀ parameter ∈ parameters, Plain parameter ∧ parameter ≠ "") :
    readParameters ([','].intercalate (parameters.map String.toList) ++ [')']) = parameters := by
  rw [readParameters, List.dropLast_concat]
  cases parameters with
  | nil => simp
  | cons first others =>
    have hcomma : ∀ cs ∈ (first :: others).map String.toList, ',' ∉ cs := by
      intro cs hcs hmem
      obtain ⟨parameter, hparameter, rfl⟩ := List.mem_map.1 hcs
      have hplain := (h parameter hparameter).1 ',' hmem
      simp [isMark] at hplain
    have hfirst : first.toList ≠ [] := by simpa using (h first List.mem_cons_self).2
    have hsome : [','].intercalate ((first :: others).map String.toList) ≠ [] := by
      cases others <;> simp [hfirst]
    rw [if_neg hsome, List.splitOn_intercalate ',' hcomma (by simp), List.map_map]
    simp [Function.comp_def]

theorem toList_signature (parameters : List String) : (signature parameters).toList =
    '(' :: ([','].intercalate (parameters.map String.toList) ++ [')']) := by
  simp [signature]

/-- Nothing of a symbol is lost in writing. -/
theorem read_identity {s : Symbol} (h : s.Legible) : read s.identity.text.toList = s := by
  cases s with
  | type name =>
    obtain ⟨htake, hdrop⟩ := takeWhile_plain h [] (by simp)
    rw [List.append_nil] at htake hdrop
    simp [read, identity, htake, hdrop]
  | «variable» owner name =>
    obtain ⟨howner, hname⟩ := h
    obtain ⟨htake, hdrop⟩ := takeWhile_plain howner ('#' :: name.toList) (by simp [isMark])
    obtain ⟨htake', hdrop'⟩ := takeWhile_plain hname [] (by simp)
    rw [List.append_nil] at htake' hdrop'
    simp [read, identity, htake, hdrop, htake', hdrop']
  | method owner name parameters =>
    obtain ⟨howner, hname, hparameters⟩ := h
    let rest := [','].intercalate (parameters.map String.toList) ++ [')']
    obtain ⟨htake, hdrop⟩ := takeWhile_plain howner ('#' :: (name.toList ++ '(' :: rest))
      (by simp [isMark])
    obtain ⟨htake', hdrop'⟩ := takeWhile_plain hname ('(' :: rest) (by simp [isMark])
    have hread := readParameters_signature hparameters
    simp [rest, read, identity, toList_signature, htake, hdrop, htake', hdrop', hread]
  | constructor owner parameters =>
    obtain ⟨howner, hparameters⟩ := h
    let rest := [','].intercalate (parameters.map String.toList) ++ [')']
    obtain ⟨htake, hdrop⟩ := takeWhile_plain howner ('(' :: rest) (by simp [isMark])
    have hread := readParameters_signature hparameters
    simp [rest, read, identity, toList_signature, htake, hdrop, hread]

theorem identity_inj {s t : Symbol} (hs : s.Legible) (ht : t.Legible) :
    s.identity = t.identity ↔ s = t := by
  constructor
  · intro h
    rw [← read_identity hs, h, read_identity ht]
  · rintro rfl
    rfl

/-- Members are marked and types are not. -/
theorem isType_identity {s : Symbol} (h : s.Legible) :
    s.identity.isType = true ↔ ∃ name, s = .type name := by
  cases s with
  | type name =>
    have hplain : ∀ c ∈ name.toList, c ≠ '#' ∧ c ≠ '(' := by
      intro c hc
      have hmark := h c hc
      constructor <;> rintro rfl <;> simp [isMark] at hmark
    simpa [identity, Binding.isType] using hplain
  | «variable» owner name => simp [identity, Binding.isType]
  | method owner name parameters => simp [identity, Binding.isType]
  | constructor owner parameters => simp [identity, Binding.isType, signature]

end Symbol

namespace ErasedType

theorem GoesBy.ne_empty {erased : ErasedType} {name : String} (h : erased.GoesBy name) :
    name ≠ "" := by
  cases h with
  | qualified hne => exact hne
  | binary hne => exact hne

theorem GoesBy.reported {erased : ErasedType} {name : String} (h : erased.GoesBy name) :
    name ∈ erased.names := by
  cases h with
  | qualified _ => exact List.mem_cons_self
  | binary _ => exact List.mem_cons_of_mem _ List.mem_cons_self

theorem parameter_of_name {parameters : List ErasedType} {names : List String}
    (h : parameters.Forall₂ GoesBy names) :
    ∀ name ∈ names, ∃ erased ∈ parameters, erased.GoesBy name := by
  induction h with
  | nil => simp
  | cons hname _ ih =>
    intro name hmem
    rcases List.mem_cons.1 hmem with rfl | hmem
    · exact ⟨_, List.mem_cons_self, hname⟩
    · obtain ⟨erased, herased, hgoes⟩ := ih name hmem
      exact ⟨erased, List.mem_cons_of_mem _ herased, hgoes⟩

end ErasedType

namespace Entity

theorem Denotes.legible {e : Entity} {s : Symbol} (h : e.Denotes s)
    (hplain : ∀ name ∈ e.names, Plain name) : s.Legible := by
  have hparameter : ∀ {parameters : List ErasedType} {names : List String},
      parameters.Forall₂ ErasedType.GoesBy names →
      (∀ name ∈ parameters.flatMap ErasedType.names, Plain name) →
      ∀ name ∈ names, Plain name ∧ name ≠ "" := by
    intro parameters names hnames hall name hmem
    obtain ⟨erased, herased, hgoes⟩ := ErasedType.parameter_of_name hnames name hmem
    exact ⟨hall name (List.mem_flatMap.2 ⟨erased, herased, hgoes.reported⟩), hgoes.ne_empty⟩
  cases h with
  | type hname => exact hplain _ hname.reported
  | «variable» howner =>
    simp only [names, Option.toList_some, List.flatMap_singleton, List.forall_mem_cons] at hplain
    exact ⟨hplain.2 _ howner.reported, hplain.1⟩
  | method howner hnames =>
    simp only [names, Option.toList_some, List.singleton_append, List.flatMap_cons,
      List.forall_mem_cons, List.forall_mem_append] at hplain
    exact ⟨hplain.2.1 _ howner.reported, hplain.1, hparameter hnames hplain.2.2⟩
  | constructor howner hnames =>
    simp only [names, Option.toList_some, List.singleton_append, List.flatMap_cons,
      List.forall_mem_append] at hplain
    exact ⟨hplain.1 _ howner.reported, hparameter hnames hplain.2⟩

theorem Denotes.canonical? {e : Entity} {s : Symbol} (h : e.Denotes s) :
    e.canonical? = some s.identity :=
  canonical?_eq_some_iff.2 ⟨s, h, rfl⟩

/-- An entity has an identity when its types have names, and where names are free of marks the
identity tells what the entity is: its kind, its owner, its own name and its parameters. -/
theorem canonical?_unambiguous :
    (∀ e : Entity, (∃ b, e.canonical? = some b) ↔ ∃ s, e.Denotes s) ∧
    ∀ e f : Entity, (∀ name ∈ e.names, Plain name) → (∀ name ∈ f.names, Plain name) →
      ∀ s t, e.Denotes s → f.Denotes t →
        ∀ b c, e.canonical? = some b → f.canonical? = some c →
          (b = c ↔ s = t) ∧ (b.isType = true ↔ ∃ erased, e = .type erased) := by
  constructor
  · intro e
    constructor
    · rintro ⟨b, hb⟩
      obtain ⟨s, hs, -⟩ := canonical?_eq_some_iff.1 hb
      exact ⟨s, hs⟩
    · rintro ⟨s, hs⟩
      exact ⟨_, hs.canonical?⟩
  · intro e f he hf s t hs ht b c hb hc
    obtain rfl : s.identity = b := Option.some.inj (hs.canonical?.symm.trans hb)
    obtain rfl : t.identity = c := Option.some.inj (ht.canonical?.symm.trans hc)
    refine ⟨Symbol.identity_inj (hs.legible he) (ht.legible hf), ?_⟩
    rw [Symbol.isType_identity (hs.legible he)]
    cases hs <;> simp

/-- A member of an anonymous class, with a parameter and without. -/
theorem canonical?_unambiguous_overloads :
    ∃ e f : Entity, (∀ name ∈ e.names, Plain name) ∧ (∀ name ∈ f.names, Plain name) ∧
      e.canonical? = some ⟨"A$1#x(int)"⟩ ∧ f.canonical? = some ⟨"A$1#x()"⟩ ∧
      (⟨"A$1#x(int)"⟩ : Binding) ≠ ⟨"A$1#x()"⟩ ∧
      (⟨"A$1#x(int)"⟩ : Binding).isType = false := by
  let owner : ErasedType := .named "" (some "A$1")
  let parameter : ErasedType := .named "int" none
  let e : Entity := .method (some owner) "x" [parameter]
  let f : Entity := .method (some owner) "x" []
  have he : ∀ name ∈ e.names, Plain name := by
    simp [e, owner, parameter, names, ErasedType.names, Plain, isMark]
  have hf : ∀ name ∈ f.names, Plain name := by
    simp [f, owner, names, ErasedType.names, Plain, isMark]
  have howner : owner.GoesBy "A$1" := .binary (by simp)
  have hs : e.Denotes (.method "A$1" "x" ["int"]) :=
    .method howner (.cons (.qualified (by simp)) .nil)
  have ht : f.Denotes (.method "A$1" "x" []) := .method howner .nil
  have hb : e.canonical? = some ⟨"A$1#x(int)"⟩ := hs.canonical?
  have hc : f.canonical? = some ⟨"A$1#x()"⟩ := ht.canonical?
  obtain ⟨hsame, htype⟩ := canonical?_unambiguous.2 e f he hf _ _ hs ht _ _ hb hc
  refine ⟨e, f, he, hf, hb, hc, ?_, ?_⟩
  · rw [ne_eq, hsame]
    simp
  · rw [← Bool.not_eq_true, htype]
    simp [e]

end Entity

end CrossRef
