import WattFront.Proofs.Tree.Canonical
import WattFront.Proofs.Tree.Induction
import WattFront.Proofs.Tree.Shape
import WattFront.Proofs.Tree.Trace

/-! # Well-formed programs

A program can be written down and read back if its trees have the right shape, its names and numbers can
be written, and no type without a body runs into the item behind it: the traits of a type end where no
name follows, and they are missing if the word in front of them does not follow.

`Program.WellFormed.written` says that the words of the spelling of such a program are read as one token each.
-/

namespace WattFront

/-- Whether a name or a number can be written as one token. Strings and truth values always can. -/
def Trace.Writable : Trace → Prop
  | .name text => IsName text
  | .number value => 0 ≤ value ∧ value ≤ 2 ^ 63 - 1
  | .string _ | .bool _ | .propagation => True

/-- Whether all names and numbers among some traces can be written. -/
def AllWritable (ts : List Trace) : Prop :=
  ∀ t ∈ ts, t.Writable

/-- The name that a chain starts with. -/
def Expr.root? : Expr → Option String
  | .symbol name _ => some name
  | .member object _ _ => object.root?
  | .call callee _ _ _ => callee.root?
  | _ => none

def Item.root? : Item → Option String
  | .statement (.assign target _ _ _) => target.root?
  | .statement (.define target _ _) => target.root?
  | _ => none

/-- Whether the first name of an item would belong to the item in front of it: to a type without a body
whose traits are open for a name, or for the word in front of them. -/
def Item.runsInto : Item → Item → Bool
  | .definition (.type ⟨_, _, none, none, _⟩), next => next.root? = some "impl"
  | .definition (.type ⟨_, _, some [], none, _⟩), next => next.root?.isSome
  | _, _ => false

/-- The programs that can be written down and read back. -/
structure Program.WellFormed (p : Program) : Prop where
  shaped : p.shaped = true
  writable : AllWritable p.traces
  apart : p.items.IsChain fun i next => i.runsInto next = false

instance : (t : Trace) → Decidable t.Writable
  | .name text => inferInstanceAs (Decidable (IsName text))
  | .number value => inferInstanceAs (Decidable (0 ≤ value ∧ value ≤ 2 ^ 63 - 1))
  | .string _ | .bool _ | .propagation => inferInstanceAs (Decidable True)

instance (ts : List Trace) : Decidable (AllWritable ts) :=
  inferInstanceAs (Decidable (∀ t ∈ ts, t.Writable))

instance (p : Program) : Decidable p.WellFormed :=
  decidable_of_iff (p.shaped = true ∧ AllWritable p.traces
      ∧ p.items.IsChain fun i next => i.runsInto next = false)
    ⟨fun h => ⟨h.1, h.2.1, h.2.2⟩, fun h => ⟨h.shaped, h.writable, h.apart⟩⟩

/-! ## Words in brackets -/

namespace TokenKind

@[simp] def isFixed (kind : TokenKind) : Bool :=
  kind ∉ [.endOfInput, .number, .string, .identifier]

theorem mem_of_isFixed {kind : TokenKind} (h : kind.isFixed = true) : kind ∈ keywords ++ marks := by
  cases kind <;> first | decide | cases h

end TokenKind

namespace Word

def AllWritten (ws : List Word) : Prop :=
  ∀ w ∈ ws, w.Written

variable {w : Word} {us vs : List Word} {groups : List (List Word)}

@[simp] theorem allWritten_nil : AllWritten [] :=
  List.forall_mem_nil _

@[simp] theorem allWritten_cons : AllWritten (w :: vs) ↔ w.Written ∧ AllWritten vs :=
  List.forall_mem_cons

@[simp] theorem allWritten_append : AllWritten (us ++ vs) ↔ AllWritten us ∧ AllWritten vs :=
  List.forall_mem_append

theorem allWritten_flatMap {α : Type} {f : α → List Word} {as : List α} :
    AllWritten (as.flatMap f) ↔ ∀ a ∈ as, AllWritten (f a) :=
  List.forall_mem_flatMap

/-- Keywords and marks are read as one token each. -/
@[simp] theorem written_word {kind : TokenKind} (h : kind.isFixed = true) : kind.word.Written := by
  rcases List.mem_append.1 (TokenKind.mem_of_isFixed h) with h | h
  · exact .keyword h
  · exact .mark h

theorem allWritten_separated (h : ∀ ws ∈ groups, AllWritten ws) : AllWritten (separated groups) := by
  fun_induction separated groups with
  | case1 => exact allWritten_nil
  | case2 ws => exact h ws List.mem_cons_self
  | case3 ws groups _ ih =>
    obtain ⟨hws, hgroups⟩ := List.forall_mem_cons.1 h
    exact allWritten_append.2 ⟨hws, allWritten_cons.2 ⟨written_word rfl, ih hgroups⟩⟩

theorem allWritten_bracketed {opening closing : TokenKind}
    (hopening : opening.isFixed = true) (hclosing : closing.isFixed = true)
    (h : ∀ ws ∈ groups, AllWritten ws) : AllWritten (bracketed opening closing groups) := by
  have hopen : opening.word.Written := written_word hopening
  have hclose : closing.word.Written := written_word hclosing
  simp [bracketed, hopen, hclose, allWritten_separated h]

theorem allWritten_grouped (h : AllWritten vs) : AllWritten (grouped vs) := by
  simp [grouped, h]

theorem allWritten_parameters {names : List Ident} (h : ∀ t ∈ names.map Ident.trace, t.Writable) :
    AllWritten (parameters names) := by
  refine allWritten_bracketed rfl rfl ?_
  rw [List.forall_mem_map] at h ⊢
  intro i member
  simpa [Ident.word] using Written.name (h i member)

end Word

/-! ## The words of trees -/

namespace AllWritable

variable {t : Trace} {ts us : List Trace}

@[simp] theorem nil : AllWritable [] :=
  List.forall_mem_nil _

@[simp] theorem cons_iff : AllWritable (t :: ts) ↔ t.Writable ∧ AllWritable ts :=
  List.forall_mem_cons

@[simp] theorem append_iff : AllWritable (ts ++ us) ↔ AllWritable ts ∧ AllWritable us :=
  List.forall_mem_append

@[simp] theorem flatMap_iff {α : Type} {f : α → List Trace} {as : List α} :
    AllWritable (as.flatMap f) ↔ ∀ a ∈ as, AllWritable (f a) :=
  List.forall_mem_flatMap

theorem elim_iff {α : Type} {f : α → List Trace} {a? : Option α} :
    AllWritable (a?.elim [] f) ↔ ∀ a ∈ a?, AllWritable (f a) := by
  cases a? <;> simp

end AllWritable

open Word

theorem allWritten_elim {α : Type} {f : α → List Word} {a? : Option α} :
    AllWritten (a?.elim [] f) ↔ ∀ a ∈ a?, AllWritten (f a) := by
  cases a? <;> simp

theorem written_ident {i : Ident} (h : i.trace.Writable) : i.word.Written :=
  .name h

theorem written_binaryOp (op : BinaryOp) : op.token.word.Written := by
  cases op <;> exact written_word rfl

theorem written_unaryOp (op : UnaryOp) : op.token.word.Written := by
  cases op <;> exact written_word rfl

theorem written_assignOp (op : AssignOp) : op.token.word.Written := by
  cases op <;> exact written_word rfl

theorem written_number {value : Int} (h : (Trace.number value).Writable) :
    Written ⟨.number, toString value⟩ := by
  obtain ⟨hzero, hlimit⟩ := h
  obtain ⟨n, rfl⟩ := Int.eq_ofNat_of_zero_le hzero
  have hn : n ≤ 2 ^ 63 - 1 := by omega
  exact .number hn

theorem Import.allWritten_words {i : Import} (h : AllWritable i.traces) : AllWritten i.words := by
  obtain ⟨path, alias?, s⟩ := i
  cases alias? with
  | none => simp [Import.words, Written.string]
  | some name =>
    simp only [Import.traces, Option.toList_some, List.map_cons, AllWritable.cons_iff] at h
    simp [Import.words, Written.string, written_ident h.2.1]

theorem allWritten_wordsOfImports {list : List Import} (h : AllWritable (list.flatMap Import.traces)) :
    AllWritten (wordsOfImports list) := by
  rw [AllWritable.flatMap_iff] at h
  unfold wordsOfImports
  split
  · exact Import.allWritten_words (h _ List.mem_cons_self)
  · refine allWritten_bracketed rfl rfl ?_
    rw [List.forall_mem_map]
    exact fun i member => Import.allWritten_words (h i member)

theorem allWritten_parameters? {names? : Option (List Ident)} (h : AllWritable (tracesOfParameters names?)) :
    AllWritten (names?.elim [] parameters) := by
  cases names? with
  | none => exact allWritten_nil
  | some names => exact allWritten_parameters h

/-- The words of a tree whose names and numbers can be written are read as one token each. -/
def writtenWords : TreeProperty where
  expr e := AllWritable e.traces → AllWritten e.words
  pair p := AllWritable p.traces → AllWritten p.words
  arm a := AllWritable a.traces → AllWritten a.words
  body b := AllWritable b.traces → AllWritten b.words
  block b := AllWritable b.traces → AllWritten b.words
  stmt s := AllWritable s.traces → AllWritten s.words
  branch b := AllWritable b.traces → AllWritten b.words
  function f := AllWritable f.traces → AllWritten f.words

theorem allWritten_wordsAll {es : List Expr} (hes : ∀ e ∈ es, writtenWords.expr e)
    (h : AllWritable (Expr.tracesAll es)) : ∀ ws ∈ Expr.wordsAll es, AllWritten ws := by
  rw [Expr.tracesAll_eq, AllWritable.flatMap_iff] at h
  rw [Expr.wordsAll_eq, List.forall_mem_map]
  exact fun e member => allWritten_grouped (hes e member (h e member))

theorem allWritten_arguments {es : List Expr} (hes : ∀ e ∈ es, writtenWords.expr e)
    (h : AllWritable (Expr.tracesAll es)) :
    AllWritten (bracketed .openParen .closeParen (es.map fun e => grouped e.words)) := by
  rw [← Expr.wordsAll_eq]
  exact allWritten_bracketed rfl rfl (allWritten_wordsAll hes h)

theorem writtenWords_hereditary : writtenWords.Hereditary where
  number value s h := by
    simp only [Expr.traces, AllWritable.cons_iff] at h
    simpa [Expr.words] using written_number h.1
  bool value s _ := by
    cases value <;> simp [Expr.words]
  string value s _ := by
    simpa [Expr.words] using Written.string
  symbol name s h := by
    simp only [Expr.traces, AllWritable.cons_iff] at h
    simpa [Expr.words] using Written.name h.1
  list s hes h := allWritten_bracketed rfl rfl (allWritten_wordsAll hes h)
  map s hps h := by
    rw [Expr.traces, Pair.tracesAll_eq, AllWritable.flatMap_iff] at h
    refine allWritten_bracketed rfl rfl ?_
    rw [Pair.wordsAll_eq, List.forall_mem_map]
    exact fun p member => hps p member (h p member)
  member i s hobject h := by
    simp only [Expr.traces, AllWritable.append_iff, AllWritable.cons_iff] at h
    simp [Expr.words, hobject h.1, written_ident h.2.1]
  call propagate s hcallee hes h := by
    simp only [Expr.traces, AllWritable.append_iff] at h
    have harguments := allWritten_arguments hes h.2.1
    cases propagate <;> simp [Expr.words, hcallee h.1, harguments]
  binary op s hleft hright h := by
    simp only [Expr.traces, AllWritable.append_iff] at h
    simp [Expr.words, allWritten_grouped (hleft h.1), allWritten_grouped (hright h.2), written_binaryOp]
  unary op s hoperand h := by
    simp [Expr.words, allWritten_grouped (hoperand h), written_unaryOp]
  new i s hes h := by
    simp only [Expr.traces, AllWritable.cons_iff] at h
    have harguments := allWritten_arguments hes h.2
    simp [Expr.words, written_ident h.1, harguments]
  choice s hscrutinee harms hfallback h := by
    simp only [Expr.traces, Arm.tracesAll_eq, Arm.traces?_eq, AllWritable.append_iff,
      AllWritable.flatMap_iff, AllWritable.elim_iff] at h
    simp only [Expr.words, Arm.wordsAll_eq, Arm.words?_eq, allWritten_cons, allWritten_append,
      allWritten_flatMap, allWritten_elim]
    exact ⟨written_word rfl, allWritten_grouped (hscrutinee h.1),
      fun a member => ⟨written_word rfl, harms a member (h.2.1 a member)⟩,
      fun a member => ⟨written_word rfl, hfallback a member (h.2.2 a member)⟩⟩
  lambda names s hbody h := by
    simp only [Expr.traces, AllWritable.append_iff] at h
    simp [Expr.words, allWritten_parameters h.1, allWritten_grouped (hbody h.2)]
  anonymous names s hbody h := by
    simp only [Expr.traces, AllWritable.append_iff] at h
    simp [Expr.words, allWritten_parameters h.1, hbody h.2]
  pair s hkey hvalue h := by
    simp only [Pair.traces, AllWritable.append_iff] at h
    simp [Pair.words, allWritten_grouped (hkey h.1), allWritten_grouped (hvalue h.2)]
  arm s hpattern hbody h := by
    simp only [Arm.traces, AllWritable.append_iff] at h
    simp [Arm.words, allWritten_grouped (hpattern h.1), hbody h.2]
  exprBody hvalue h := by
    simp [ArmBody.words, allWritten_grouped (hvalue h)]
  blockBody hbody h := hbody h
  block s hss h := by
    rw [Block.traces, Stmt.tracesAll_eq, AllWritable.flatMap_iff] at h
    simp only [Block.words, Stmt.wordsAll_eq, allWritten_cons, allWritten_append, allWritten_flatMap]
    exact ⟨written_word rfl, fun t member => hss t member (h t member), written_word rfl, allWritten_nil⟩
  returnValue s hvalue h := by
    simp [Stmt.words, allWritten_grouped (hvalue h)]
  whileLoop s hcondition hbody h := by
    simp only [Stmt.traces, AllWritable.append_iff] at h
    simp [Stmt.words, allWritten_grouped (hcondition h.1), hbody h.2]
  conditional s hcondition hbody helifs hotherwise h := by
    simp only [Stmt.traces, Branch.tracesAll_eq, Block.traces?_eq, AllWritable.append_iff,
      AllWritable.flatMap_iff, AllWritable.elim_iff] at h
    simp only [Stmt.words, Branch.wordsAll_eq, Block.otherwise?_eq, allWritten_cons, allWritten_append,
      allWritten_flatMap, allWritten_elim]
    exact ⟨written_word rfl, allWritten_grouped (hcondition h.1), hbody h.2.1,
      fun b member => helifs b member (h.2.2.1 b member),
      fun b member => ⟨written_word rfl, hotherwise b member (h.2.2.2 b member)⟩⟩
  forLoop i s hiterable hbody h := by
    simp only [Stmt.traces, AllWritable.cons_iff, AllWritable.append_iff] at h
    simp [Stmt.words, written_ident h.1, allWritten_grouped (hiterable h.2.1), hbody h.2.2]
  breakLoop s _ := by
    simp [Stmt.words]
  continueLoop s _ := by
    simp [Stmt.words]
  expression s hvalue h := hvalue h
  native i symbol s h := by
    simp only [Stmt.traces, AllWritable.cons_iff] at h
    simp [Stmt.words, written_ident h.1, Written.string]
  imports list s h := by
    simp [Stmt.words, allWritten_wordsOfImports h]
  assign op s htarget hvalue h := by
    simp only [Stmt.traces, AllWritable.append_iff] at h
    simp [Stmt.words, htarget h.1, allWritten_grouped (hvalue h.2), written_assignOp]
  define s htarget hvalue h := by
    simp only [Stmt.traces, AllWritable.append_iff] at h
    simp [Stmt.words, htarget h.1, allWritten_grouped (hvalue h.2)]
  nested s hdefinition h := hdefinition h
  branch s hcondition hbody h := by
    simp only [Branch.traces, AllWritable.append_iff] at h
    simp [Branch.words, allWritten_grouped (hcondition h.1), hbody h.2]
  function i names? s hbody h := by
    simp only [Function.traces, Block.traces?_eq, AllWritable.cons_iff, AllWritable.append_iff,
      AllWritable.elim_iff] at h
    simp only [Function.words, Block.words?_eq, allWritten_cons, allWritten_append]
    exact ⟨written_word rfl, written_ident h.1, allWritten_parameters? h.2.1,
      allWritten_elim.2 fun b member => hbody b member (h.2.2 b member)⟩

theorem allWritten_wordsOfTraits {names? : Option (List Ident)} (h : AllWritable (tracesOfTraits names?)) :
    AllWritten (wordsOfTraits names?) := by
  cases names? with
  | none => exact allWritten_nil
  | some names =>
    simp only [tracesOfTraits, AllWritable.cons_iff] at h
    refine allWritten_cons.2 ⟨.name h.1, allWritten_separated ?_⟩
    rw [List.forall_mem_map]
    intro i member
    simpa using written_ident (h.2 _ (List.mem_map_of_mem member))

theorem Definition.allWritten_words {d : Definition} (h : AllWritable d.traces) : AllWritten d.words := by
  have hblock : ∀ b : Block, AllWritable b.traces → AllWritten b.words :=
    writtenWords_hereditary.ofBlock
  cases d with
  | function f => exact writtenWords_hereditary.ofFunction f h
  | trait t =>
    simp only [Definition.traces, AllWritable.cons_iff, AllWritable.flatMap_iff] at h
    simp only [Definition.words, allWritten_cons, allWritten_append, allWritten_flatMap]
    exact ⟨written_word rfl, written_ident h.1, written_word rfl,
      fun f member => writtenWords_hereditary.ofFunction f (h.2 f member), written_word rfl, allWritten_nil⟩
  | type t =>
    simp only [Definition.traces, Block.traces?_eq, AllWritable.cons_iff, AllWritable.append_iff,
      AllWritable.elim_iff] at h
    simp only [Definition.words, Block.words?_eq, allWritten_cons, allWritten_append]
    exact ⟨written_word rfl, written_ident h.1, allWritten_parameters? h.2.1,
      allWritten_wordsOfTraits h.2.2.1,
      allWritten_elim.2 fun b member => hblock b (h.2.2.2 b member)⟩
  | unit u =>
    simp only [Definition.traces, Block.traces?_eq, AllWritable.cons_iff, AllWritable.elim_iff] at h
    simp only [Definition.words, Block.words?_eq, allWritten_cons]
    exact ⟨written_word rfl, written_ident h.1, allWritten_elim.2 fun b member => hblock b (h.2 b member)⟩

/-- The words of a well-formed program are read as one token each. -/
theorem Program.WellFormed.written {p : Program} (h : p.WellFormed) : AllWritten p.words := by
  have hitems := h.writable
  rw [Program.traces, AllWritable.flatMap_iff] at hitems
  rw [Program.words, allWritten_flatMap]
  intro i member
  have hi := hitems i member
  cases i with
  | definition d => exact d.allWritten_words hi
  | statement s => exact writtenWords_hereditary.ofStmt s hi

end WattFront
