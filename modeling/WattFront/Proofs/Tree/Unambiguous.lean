import WattFront.Proofs.Tree.Printed

/-! # The written form says which tree it is

Two trees that are written alike are the same up to spans, as long as their names and numbers can be written.
The first part of an s-expression shows the form of a tree; a name, a number and a truth value are told apart
by their first characters and the reserved words.

* `sexprWithoutSpans_hereditary` — the spans of a tree do not show in its s-expression;
* `toldBySExpr_hereditary` — nothing else is lost in it;
* `Program.text_eq_iff` — two programs are written alike exactly if they are the same up to spans.
-/

namespace WattFront

open SExpr (form form_chars form_inj form_plain names names?)

/-! ## Spans do not show -/

@[simp] theorem names_bare (is : List Ident) : names (is.map Ident.bare) = names is := by
  simp [names, Ident.bare, Function.comp_def]

@[simp] theorem names?_bare (is? : Option (List Ident)) :
    names? (is?.map (·.map Ident.bare)) = names? is? := by
  cases is? <;> simp [names?]

@[simp] theorem Import.sexpr_bare (i : Import) : i.bare.sexpr = i.sexpr := by
  obtain ⟨path, alias?, s⟩ := i
  cases alias? <;> rfl

def sexprWithoutSpans : TreeProperty where
  expr e := e.bare.sexpr = e.sexpr
  pair p := p.bare.sexpr = p.sexpr
  arm a := a.bare.parts = a.parts
  body b := b.bare.sexpr = b.sexpr
  block b := b.bare.sexpr = b.sexpr
  stmt s := s.bare.sexpr = s.sexpr
  branch b := b.bare.sexpr = b.sexpr
  function f := f.bare.sexpr = f.sexpr

section

variable {α β : Type} {bare : α → α} {sexpr : α → β} {as : List α} {a? : Option α}

theorem map_map_bare (h : ∀ a ∈ as, sexpr (bare a) = sexpr a) : (as.map bare).map sexpr = as.map sexpr := by
  rw [List.map_map]
  exact List.map_congr_left h

theorem toList_map_bare (h : ∀ a ∈ a?, sexpr (bare a) = sexpr a) :
    (a?.map bare).toList.map sexpr = a?.toList.map sexpr := by
  cases a? with
  | none => rfl
  | some a => exact congrArg (fun s => [s]) (h a rfl)

end

theorem sexprWithoutSpans_hereditary : sexprWithoutSpans.Hereditary where
  number value s := rfl
  bool value s := rfl
  string value s := rfl
  symbol name s := rfl
  list s hes := by
    simp [sexprWithoutSpans, map_map_bare hes]
  map s hps := by
    simp [sexprWithoutSpans, map_map_bare hps]
  member i s hobject := by
    simp only [sexprWithoutSpans] at hobject
    simp [sexprWithoutSpans, hobject, Ident.bare]
  call propagate s hcallee hes := by
    simp only [sexprWithoutSpans] at hcallee
    simp [sexprWithoutSpans, hcallee, map_map_bare hes]
  binary op s hleft hright := by
    simp only [sexprWithoutSpans] at hleft hright
    simp [sexprWithoutSpans, hleft, hright]
  unary op s hoperand := by
    simp only [sexprWithoutSpans] at hoperand
    simp [sexprWithoutSpans, hoperand]
  new i s hes := by
    simp [sexprWithoutSpans, Ident.bare, map_map_bare hes]
  choice s hscrutinee harms hfallback := by
    simp only [sexprWithoutSpans] at hscrutinee
    simp only [sexprWithoutSpans, Expr.bare, Expr.sexpr, hscrutinee, Arm.bareAll_eq, Arm.bare?_eq,
      Arm.sexprAll_eq, Arm.sexpr?_eq]
    have hcase : ∀ a ∈ _, form .case (Arm.bare a).parts = form .case a.parts :=
      fun a member => congrArg (form .case) (harms a member)
    have hdefault : ∀ a ∈ _, form .fallback (Arm.bare a).parts = form .fallback a.parts :=
      fun a member => congrArg (form .fallback) (hfallback a member)
    rw [map_map_bare hcase, toList_map_bare hdefault]
  lambda is s hbody := by
    simp only [sexprWithoutSpans] at hbody
    simp [sexprWithoutSpans, hbody]
  anonymous is s hbody := by
    simp only [sexprWithoutSpans] at hbody
    simp [sexprWithoutSpans, hbody]
  pair s hkey hvalue := by
    simp only [sexprWithoutSpans] at hkey hvalue
    simp [sexprWithoutSpans, hkey, hvalue]
  arm s hpattern hbody := by
    simp only [sexprWithoutSpans] at hpattern hbody
    simp [sexprWithoutSpans, hpattern, hbody]
  exprBody hvalue := hvalue
  blockBody hbody := hbody
  block s hss := by
    simp [sexprWithoutSpans, map_map_bare hss]
  returnValue s hvalue := by
    simp only [sexprWithoutSpans] at hvalue
    simp [sexprWithoutSpans, hvalue]
  whileLoop s hcondition hbody := by
    simp only [sexprWithoutSpans] at hcondition hbody
    simp [sexprWithoutSpans, hcondition, hbody]
  conditional s hcondition hbody helifs hotherwise := by
    simp only [sexprWithoutSpans] at hcondition hbody
    simp only [sexprWithoutSpans, Stmt.bare, Stmt.sexpr, hcondition, hbody, Branch.bareAll_eq,
      Block.bare?_eq, Branch.sexprAll_eq, Block.otherwiseSExpr?_eq]
    have helse : ∀ b ∈ _, form .otherwise [(Block.bare b).sexpr] = form .otherwise [b.sexpr] :=
      fun b member => congrArg (fun s => form .otherwise [s]) (hotherwise b member)
    rw [map_map_bare helifs, toList_map_bare helse]
  forLoop i s hiterable hbody := by
    simp only [sexprWithoutSpans] at hiterable hbody
    simp [sexprWithoutSpans, hiterable, hbody, Ident.bare]
  breakLoop s := rfl
  continueLoop s := rfl
  expression s hvalue := hvalue
  native i symbol s := rfl
  imports list s := by
    simp [sexprWithoutSpans]
  assign op s htarget hvalue := by
    simp only [sexprWithoutSpans] at htarget hvalue
    simp [sexprWithoutSpans, htarget, hvalue]
  define s htarget hvalue := by
    simp only [sexprWithoutSpans] at htarget hvalue
    simp [sexprWithoutSpans, htarget, hvalue]
  nested s hdefinition := hdefinition
  branch s hcondition hbody := by
    simp only [sexprWithoutSpans] at hcondition hbody
    simp [sexprWithoutSpans, hcondition, hbody]
  function i is? s hbody := by
    simp only [sexprWithoutSpans, Function.bare, Function.sexpr, Block.bare?_eq, Block.sexpr?_eq, names?_bare,
      toList_map_bare hbody]
    rfl

theorem traitsSExpr?_bare (is? : Option (List Ident)) :
    traitsSExpr? (is?.map (·.map Ident.bare)) = traitsSExpr? is? := by
  cases is? <;> simp [traitsSExpr?, Ident.bare]

theorem Definition.sexpr_bare (d : Definition) : d.bare.sexpr = d.sexpr := by
  have hbody (b? : Option Block) : (b?.map Block.bare).toList.map Block.sexpr = b?.toList.map Block.sexpr :=
    toList_map_bare (sexprWithoutSpans_hereditary.ofBlock? b?)
  cases d with
  | function f => exact sexprWithoutSpans_hereditary.ofFunction f
  | trait t =>
    have hmethods : (t.methods.map Function.bare).map Function.sexpr = t.methods.map Function.sexpr :=
      map_map_bare fun f _ => sexprWithoutSpans_hereditary.ofFunction f
    rw [Definition.bare, Definition.sexpr, hmethods]
    rfl
  | type t =>
    rw [Definition.bare, Definition.sexpr, Block.bare?_eq, Block.sexpr?_eq, hbody, names?_bare,
      traitsSExpr?_bare, ← Block.sexpr?_eq]
    rfl
  | unit u =>
    rw [Definition.bare, Definition.sexpr, Block.bare?_eq, Block.sexpr?_eq, hbody, ← Block.sexpr?_eq]
    rfl

theorem Item.sexpr_bare (i : Item) : i.bare.sexpr = i.sexpr := by
  cases i with
  | definition d => exact d.sexpr_bare
  | statement s => exact sexprWithoutSpans_hereditary.ofStmt s

/-! ## Atoms -/

/-- A text is that of one word only, unless it is a string literal. -/
theorem Word.Spelled.eq_of_value_eq {w w' : Word} (h : w.Spelled) (h' : w'.Spelled)
    (hne : w.kind ≠ .string) (hne' : w'.kind ≠ .string) (heq : w.value = w'.value) : w = w' := by
  have helement : Element w.text [] (some (w.kind, w.value)) := h.element (by simp)
  have helement' : Element w.text [] (some (w'.kind, w'.value)) := by
    rw [text_of_ne hne, heq, ← text_of_ne hne']
    exact h'.element (by simp)
  obtain ⟨c, tail, htext⟩ := List.exists_cons_of_ne_nil helement.nonempty
  rw [htext] at helement helement'
  have hfirst := Lexeme.first_of_element helement rfl
  rw [Lexeme.first_of_element helement' rfl] at hfirst
  obtain ⟨kind, value⟩ := w
  obtain ⟨kind', value'⟩ := w'
  cases hfirst
  rfl

theorem toString_inj {value value' : Int} (h : 0 ≤ value) (h' : 0 ≤ value')
    (heq : toString value = toString value') : value = value' := by
  obtain ⟨n, rfl⟩ := Int.eq_ofNat_of_zero_le h
  obtain ⟨n', rfl⟩ := Int.eq_ofNat_of_zero_le h'
  have hdigits : (toString n).toList = (toString n').toList := congrArg String.toList heq
  rw [Nat.toString_eq_ofList_toDigits, Nat.toString_eq_ofList_toDigits, String.toList_ofList,
    String.toList_ofList] at hdigits
  have hvalues := congrArg Numeral.toNat hdigits
  rw [Numeral.toNat_toDigits, Numeral.toNat_toDigits] at hvalues
  rw [hvalues]

/-- The word of an expression that is an atom. -/
theorem Expr.word_of_atom {e : Expr} {text : String} (h : AllWritable e.traces) (heq : e.sexpr = .atom text) :
    ∃ w : Word, e.words = [w] ∧ w.Spelled ∧ w.kind ≠ .string ∧ w.value = text := by
  cases e with
  | number value s =>
    simp only [Expr.traces, AllWritable.cons_iff] at h
    exact ⟨_, rfl, (written_number h.1).spelled, by simp, SExpr.atom.inj heq⟩
  | bool value s =>
    refine ⟨_, rfl, (Word.written_word ?_).spelled, ?_, ?_⟩
    · cases value <;> rfl
    · cases value <;> decide
    · rw [← SExpr.atom.inj heq]
      cases value <;> rfl
  | symbol name s =>
    simp only [Expr.traces, AllWritable.cons_iff] at h
    exact ⟨_, rfl, .name h.1, by simp, SExpr.atom.inj heq⟩
  | _ => simp at heq

/-- An atom is the s-expression of one name, number or truth value only. -/
theorem Expr.bare_eq_of_atom {e e' : Expr} {text : String} (h : AllWritable e.traces)
    (h' : AllWritable e'.traces) (heq : e.sexpr = .atom text) (heq' : e'.sexpr = .atom text) :
    e.bare = e'.bare := by
  have hwords : e.words = e'.words := by
    obtain ⟨w, hwords, hw, hne, hvalue⟩ := word_of_atom h heq
    obtain ⟨w', hwords', hw', hne', hvalue'⟩ := word_of_atom h' heq'
    rw [hwords, hwords', hw.eq_of_value_eq hw' hne hne' (hvalue.trans hvalue'.symm)]
  cases e with
  | number value s =>
    cases e' with
    | number value' s' =>
      simp only [Expr.traces, AllWritable.cons_iff] at h h'
      simp only [Expr.words, List.cons.injEq, Word.mk.injEq, true_and, and_true] at hwords
      rw [Expr.bare, Expr.bare, toString_inj h.1.1 h'.1.1 hwords]
    | bool value' s' => cases value' <;> simp [TokenKind.word] at hwords
    | symbol => simp at hwords
    | _ => simp at heq'
  | bool value s =>
    cases e' with
    | bool value' s' => cases value <;> cases value' <;> simp_all [Expr.words, TokenKind.word, Expr.bare]
    | number | symbol => cases value <;> simp [TokenKind.word] at hwords
    | _ => simp at heq'
  | symbol name s =>
    cases e' with
    | symbol name' s' =>
      simp only [Expr.words, List.cons.injEq, Word.mk.injEq, true_and, and_true] at hwords
      rw [Expr.bare, Expr.bare, hwords]
    | bool value' s' => cases value' <;> simp [TokenKind.word] at hwords
    | number => simp at hwords
    | _ => simp at heq'
  | _ => simp at heq

/-! ## Heads -/

namespace Head

@[simp] def opensExpr : Head → Bool
  | .list | .map | .member | .call _ | .binary _ | .not | .new | .choice | .lambda | .function => true
  | _ => false

end Head

variable {head : Head} {parts : List SExpr}

/-- The s-expression of an expression starts with no head of another tree. -/
@[simp] theorem Expr.sexpr_ne_form (e : Expr) (h : ¬ head.opensExpr = true) : e.sexpr ≠ form head parts := by
  intro heq
  apply h
  cases e with
  | unary op => cases op <;> exact (form_inj.1 heq).1 ▸ rfl
  | number | bool | string | symbol => cases heq
  | _ => exact (form_inj.1 heq).1 ▸ rfl

@[simp] theorem Expr.form_ne_sexpr (e : Expr) (h : ¬ head.opensExpr = true) : form head parts ≠ e.sexpr :=
  (e.sexpr_ne_form h).symm

theorem Block.sexpr_eq (b : Block) : b.sexpr = form .block (b.statements.map Stmt.sexpr) := by
  obtain ⟨statements, s⟩ := b
  rw [Block.sexpr, Stmt.sexprAll_eq]

theorem Branch.sexpr_eq (b : Branch) : b.sexpr = form .elif [b.condition.sexpr, b.body.sexpr] := by
  obtain ⟨condition, body, s⟩ := b
  rw [Branch.sexpr]

theorem Function.sexpr_eq (f : Function) :
    f.sexpr = form .function (.atom f.name.name :: (names? f.parameters? ++ f.body?.toList.map Block.sexpr)) := by
  obtain ⟨i, parameters?, body?, s⟩ := f
  rw [Function.sexpr, Block.sexpr?_eq]

/-- A function without a name has parameters where one with a name has the name. -/
@[simp] theorem Expr.sexpr_ne_function (e : Expr) (f : Function) : e.sexpr ≠ f.sexpr := by
  rw [f.sexpr_eq]
  cases e <;> simp [names]

@[simp] theorem Expr.function_ne_sexpr (e : Expr) (f : Function) : f.sexpr ≠ e.sexpr :=
  (e.sexpr_ne_function f).symm

namespace SExpr

def hasHead (head : Head) : SExpr → Bool
  | .round (.atom text :: _) => text = head.text
  | _ => false

@[simp] theorem hasHead_form {head' : Head} : (form head' parts).hasHead head = decide (head' = head) :=
  decide_eq_decide.2 ⟨Head.text_inj, congrArg Head.text⟩

theorem hasHead_of_mem_names? {is? : Option (List Ident)} : ∀ s ∈ names? is?, s.hasHead head = false := by
  cases is? with
  | none => exact List.forall_mem_nil _
  | some is => exact List.forall_mem_singleton.2 rfl

theorem hasHead_of_mem_traitsSExpr? {is? : Option (List Ident)} :
    ∀ s ∈ traitsSExpr? is?, s.hasHead head = decide (Head.impl = head) := by
  cases is? with
  | none => exact List.forall_mem_nil _
  | some is => exact List.forall_mem_singleton.2 hasHead_form

/-- Parts without a head end where those with it start. -/
theorem append_inj_of_head {ss ss' ts ts' : List SExpr} (head : Head)
    (hss : ∀ s ∈ ss, s.hasHead head = false) (hss' : ∀ s ∈ ss', s.hasHead head = false)
    (hts : ∀ t ∈ ts, t.hasHead head = true) (hts' : ∀ t ∈ ts', t.hasHead head = true)
    (h : ss ++ ts = ss' ++ ts') : ss = ss' ∧ ts = ts' := by
  have hfront {ss ts : List SExpr} (hss : ∀ s ∈ ss, s.hasHead head = false)
      (hts : ∀ t ∈ ts, t.hasHead head = true) : (ss ++ ts).takeWhile (!·.hasHead head) = ss := by
    refine takeWhile_append_eq (fun s member => by rw [hss s member]; rfl) ?_
    exact fun t member => by rw [hts t (List.mem_of_mem_head? member)]; rfl
  have hsame : ss = ss' := by
    rw [← hfront hss hts, h, hfront hss' hts']
  rw [hsame] at h
  exact ⟨hsame, List.append_cancel_left h⟩

end SExpr

/-! ## Nothing but spans is lost -/

/-- Up to spans, there is no other tree with the same s-expression, or with the same parts of one. -/
def ToldBy {α β : Type} (traces : α → List Trace) (sexpr : α → β) (bare : α → α) (a : α) : Prop :=
  AllWritable (traces a) → ∀ a', AllWritable (traces a') → sexpr a = sexpr a' → bare a = bare a'

section

variable {α β γ : Type} {traces : α → List Trace} {sexpr : α → β} {bare : α → α} {f : α → β} {g : α → γ}
  {as as' : List α} {a? a?' : Option α}

theorem map_eq_map_of (h : ∀ a ∈ as, ∀ a' ∈ as', f a = f a' → g a = g a') (heq : as.map f = as'.map f) :
    as.map g = as'.map g := by
  induction as generalizing as' with
  | nil =>
    rw [List.map_nil, eq_comm, List.map_eq_nil_iff] at heq
    rw [heq]
  | cons a as ih =>
    cases as' with
    | nil => cases heq
    | cons a' as' =>
      rw [List.map_cons, List.map_cons, List.cons.injEq] at heq
      have hfirst : g a = g a' := h a List.mem_cons_self a' List.mem_cons_self heq.1
      have hothers : as.map g = as'.map g := by
        refine ih (fun b member b' member' => ?_) heq.2
        exact h b (List.mem_cons_of_mem _ member) b' (List.mem_cons_of_mem _ member')
      rw [List.map_cons, List.map_cons, hfirst, hothers]

theorem map_eq_map_of_toList (h : ∀ a ∈ a?, ∀ a' ∈ a?', f a = f a' → g a = g a')
    (heq : a?.toList.map f = a?'.toList.map f) : a?.map g = a?'.map g := by
  cases a? with
  | none =>
    cases a?' with
    | none => rfl
    | some a' => cases heq
  | some a =>
    cases a?' with
    | none => cases heq
    | some a' => exact congrArg some (h a rfl a' rfl (List.singleton_inj.1 heq))

theorem ToldBy.map (h : ∀ a ∈ as, ToldBy traces sexpr bare a) (hwritable : ∀ a ∈ as, AllWritable (traces a))
    (hwritable' : ∀ a ∈ as', AllWritable (traces a)) (heq : as.map sexpr = as'.map sexpr) :
    as.map bare = as'.map bare :=
  map_eq_map_of (fun a member a' member' => h a member (hwritable a member) a' (hwritable' a' member')) heq

theorem ToldBy.option (h : ∀ a ∈ a?, ToldBy traces sexpr bare a)
    (hwritable : ∀ a ∈ a?, AllWritable (traces a)) (hwritable' : ∀ a ∈ a?', AllWritable (traces a))
    (heq : a?.toList.map sexpr = a?'.toList.map sexpr) : a?.map bare = a?'.map bare :=
  map_eq_map_of_toList
    (fun a member a' member' => h a member (hwritable a member) a' (hwritable' a' member')) heq

/-- What tells a tree still does so inside something else that can be taken off again. -/
theorem ToldBy.inside {wrap : β → γ} (hwrap : Function.Injective wrap) {a : α}
    (h : ToldBy traces sexpr bare a) : ToldBy traces (fun a => wrap (sexpr a)) bare a :=
  fun hw a' hw' heq => h hw a' hw' (hwrap heq)

end

theorem form_injective (head : Head) : Function.Injective (form head) :=
  fun _ _ heq => (form_inj.1 heq).2

theorem otherwise_injective : Function.Injective fun s => form .otherwise [s] :=
  fun _ _ heq => List.singleton_inj.1 (form_inj.1 heq).2

theorem eq_of_names_eq {is is' : List Ident} (h : names is = names is') :
    is.map Ident.bare = is'.map Ident.bare := by
  have hname : Function.Injective fun text : String => SExpr.atom text := fun _ _ => SExpr.atom.inj
  have htexts : is.map Ident.name = is'.map Ident.name := by
    refine hname.list_map ?_
    simpa [names, Function.comp_def] using h
  have hbare (is : List Ident) : is.map Ident.bare = (is.map Ident.name).map fun name => ⟨name, default⟩ := by
    simp [Ident.bare, Function.comp_def]
  rw [hbare, htexts, ← hbare]

theorem eq_of_names?_eq {is? is?' : Option (List Ident)} (h : names? is? = names? is?') :
    is?.map (·.map Ident.bare) = is?'.map (·.map Ident.bare) :=
  map_eq_map_of_toList (fun _ _ _ _ => eq_of_names_eq) h

theorem eq_of_traitsSExpr?_eq {is? is?' : Option (List Ident)} (h : traitsSExpr? is? = traitsSExpr? is?') :
    is?.map (·.map Ident.bare) = is?'.map (·.map Ident.bare) := by
  refine map_eq_map_of_toList (fun is _ is' _ hform => ?_) h
  exact eq_of_names_eq (congrArg SExpr.square (form_injective .impl hform))

theorem Import.toldBySExpr (i : Import) : ToldBy Import.traces Import.sexpr Import.bare i := by
  intro _ i' _ h
  obtain ⟨path, alias?, s⟩ := i
  obtain ⟨path', alias?', s'⟩ := i'
  cases alias? <;> cases alias?' <;> simp_all [Import.sexpr, Import.bare, Ident.bare]

/-- Up to spans, a tree is told by its s-expression if its names and numbers can be written. -/
def toldBySExpr : TreeProperty where
  expr := ToldBy Expr.traces Expr.sexpr Expr.bare
  pair := ToldBy Pair.traces Pair.sexpr Pair.bare
  arm := ToldBy Arm.traces Arm.parts Arm.bare
  body := ToldBy ArmBody.traces ArmBody.sexpr ArmBody.bare
  block := ToldBy Block.traces Block.sexpr Block.bare
  stmt := ToldBy Stmt.traces Stmt.sexpr Stmt.bare
  branch := ToldBy Branch.traces Branch.sexpr Branch.bare
  function := ToldBy Function.traces Function.sexpr Function.bare

theorem toldBySExpr_hereditary : toldBySExpr.Hereditary where
  number value s h e' h' heq := Expr.bare_eq_of_atom h h' rfl heq.symm
  bool value s h e' h' heq := Expr.bare_eq_of_atom h h' rfl heq.symm
  string value s h e' h' heq := by
    cases e' with
    | string value' s' =>
      rw [Expr.bare, Expr.bare, SExpr.quoted.inj heq]
    | _ => simp at heq
  symbol name s h e' h' heq := Expr.bare_eq_of_atom h h' rfl heq.symm
  list s hes h e' h' heq := by
    cases e' with
    | list es' s' =>
      simp only [Expr.traces, Expr.tracesAll_eq, AllWritable.flatMap_iff] at h h'
      simp only [Expr.sexpr, Expr.sexprAll_eq, form_inj, true_and] at heq
      simp only [Expr.bare, Expr.bareAll_eq, ToldBy.map hes h h' heq]
    | _ => simp at heq
  map s hps h e' h' heq := by
    cases e' with
    | map ps' s' =>
      simp only [Expr.traces, Pair.tracesAll_eq, AllWritable.flatMap_iff] at h h'
      simp only [Expr.sexpr, Pair.sexprAll_eq, form_inj, true_and] at heq
      simp only [Expr.bare, Pair.bareAll_eq, ToldBy.map hps h h' heq]
    | _ => simp at heq
  member i s hobject h e' h' heq := by
    cases e' with
    | member object' i' s' =>
      simp only [Expr.traces, AllWritable.append_iff] at h h'
      simp only [Expr.sexpr, form_inj, List.cons.injEq, SExpr.atom.injEq, true_and, and_true] at heq
      simp only [Expr.bare, hobject h.1 _ h'.1 heq.1, Ident.bare, heq.2]
    | _ => simp at heq
  call propagate s hcallee hes h e' h' heq := by
    cases e' with
    | call callee' es' propagate' s' =>
      simp only [Expr.traces, Expr.tracesAll_eq, AllWritable.append_iff, AllWritable.flatMap_iff] at h h'
      simp only [Expr.sexpr, Expr.sexprAll_eq, form_inj, Head.call.injEq, List.cons.injEq] at heq
      obtain ⟨hpropagate, hcalled, harguments⟩ := heq
      simp only [Expr.bare, Expr.bareAll_eq, hpropagate, hcallee h.1 _ h'.1 hcalled,
        ToldBy.map hes h.2.1 h'.2.1 harguments]
    | _ => simp at heq
  binary op s hleft hright h e' h' heq := by
    cases e' with
    | binary op' left' right' s' =>
      simp only [Expr.traces, AllWritable.append_iff] at h h'
      simp only [Expr.sexpr, form_inj, Head.binary.injEq, List.cons.injEq, and_true] at heq
      obtain ⟨hop, hlefts, hrights⟩ := heq
      simp only [Expr.bare, hop, hleft h.1 _ h'.1 hlefts, hright h.2 _ h'.2 hrights]
    | _ => simp at heq
  unary op s hoperand h e' h' heq := by
    cases e' with
    | unary op' operand' s' =>
      simp only [Expr.traces] at h h'
      simp only [Expr.sexpr, form_inj, List.cons.injEq, and_true] at heq
      have hop : op = op' := by
        cases op <;> cases op' <;> simp_all
      simp only [Expr.bare, hop, hoperand h _ h' heq.2]
    | _ => simp at heq
  new i s hes h e' h' heq := by
    cases e' with
    | new i' es' s' =>
      simp only [Expr.traces, Expr.tracesAll_eq, AllWritable.cons_iff, AllWritable.flatMap_iff] at h h'
      simp only [Expr.sexpr, Expr.sexprAll_eq, form_inj, List.cons.injEq, SExpr.atom.injEq, true_and] at heq
      simp only [Expr.bare, Expr.bareAll_eq, Ident.bare, heq.1, ToldBy.map hes h.2 h'.2 heq.2]
    | _ => simp at heq
  choice s hscrutinee harms hfallback h e' h' heq := by
    cases e' with
    | choice scrutinee' arms' fallback?' s' =>
      simp only [Expr.traces, Arm.tracesAll_eq, Arm.traces?_eq, AllWritable.append_iff,
        AllWritable.flatMap_iff, AllWritable.elim_iff] at h h'
      simp only [Expr.sexpr, Arm.sexprAll_eq, Arm.sexpr?_eq, form_inj, List.cons.injEq, true_and] at heq
      obtain ⟨hchosen, hbehind⟩ := heq
      obtain ⟨hcases, hdefault⟩ := SExpr.append_inj_of_head .fallback (by simp) (by simp) (by simp)
        (by simp) hbehind
      simp only [Expr.bare, Arm.bareAll_eq, Arm.bare?_eq, hscrutinee h.1 _ h'.1 hchosen,
        ToldBy.map (fun a member => (harms a member).inside (form_injective .case)) h.2.1 h'.2.1 hcases,
        ToldBy.option (fun a member => (hfallback a member).inside (form_injective .fallback)) h.2.2 h'.2.2
          hdefault]
    | _ => simp at heq
  lambda is s hbody h e' h' heq := by
    cases e' with
    | lambda is' body' s' =>
      simp only [Expr.traces, AllWritable.append_iff] at h h'
      simp only [Expr.sexpr, form_inj, List.cons.injEq, true_and, and_true] at heq
      simp only [Expr.bare, eq_of_names_eq heq.1, hbody h.2 _ h'.2 heq.2]
    | _ => simp at heq
  anonymous is s hbody h e' h' heq := by
    cases e' with
    | function is' body' s' =>
      simp only [Expr.traces, AllWritable.append_iff] at h h'
      simp only [Expr.sexpr, form_inj, List.cons.injEq, true_and, and_true] at heq
      simp only [Expr.bare, eq_of_names_eq heq.1, hbody h.2 _ h'.2 heq.2]
    | _ => simp at heq
  pair s hkey hvalue h p' h' heq := by
    obtain ⟨key', value', s'⟩ := p'
    simp only [Pair.traces, AllWritable.append_iff] at h h'
    simp only [Pair.sexpr, form_inj, List.cons.injEq, true_and, and_true] at heq
    simp only [Pair.bare, hkey h.1 _ h'.1 heq.1, hvalue h.2 _ h'.2 heq.2]
  arm s hpattern hbody h a' h' heq := by
    obtain ⟨pattern', body', s'⟩ := a'
    simp only [Arm.traces, AllWritable.append_iff] at h h'
    simp only [Arm.parts, List.cons.injEq, and_true] at heq
    simp only [Arm.bare, hpattern h.1 _ h'.1 heq.1, hbody h.2 _ h'.2 heq.2]
  exprBody hvalue h b' h' heq := by
    cases b' with
    | expr value' => simp only [ArmBody.bare, hvalue h _ h' heq]
    | block body' => simp [Block.sexpr_eq] at heq
  blockBody hbody h b' h' heq := by
    cases b' with
    | expr value' => simp [Block.sexpr_eq] at heq
    | block body' => simp only [ArmBody.bare, hbody h _ h' heq]
  block s hss h b' h' heq := by
    obtain ⟨ss', s'⟩ := b'
    simp only [Block.traces, Stmt.tracesAll_eq, AllWritable.flatMap_iff] at h h'
    simp only [Block.sexpr, Stmt.sexprAll_eq, form_inj, true_and] at heq
    simp only [Block.bare, Stmt.bareAll_eq, ToldBy.map hss h h' heq]
  returnValue s hvalue h t h' heq := by
    cases t with
    | returnValue value' s' =>
      simp only [Stmt.sexpr, form_inj, List.cons.injEq, true_and, and_true] at heq
      simp only [Stmt.bare, hvalue h _ h' heq]
    | _ => simp [Function.sexpr_eq] at heq
  whileLoop s hcondition hbody h t h' heq := by
    cases t with
    | whileLoop condition' body' s' =>
      simp only [Stmt.traces, AllWritable.append_iff] at h h'
      simp only [Stmt.sexpr, form_inj, List.cons.injEq, true_and, and_true] at heq
      simp only [Stmt.bare, hcondition h.1 _ h'.1 heq.1, hbody h.2 _ h'.2 heq.2]
    | _ => simp [Function.sexpr_eq] at heq
  conditional s hcondition hbody helifs hotherwise h t h' heq := by
    cases t with
    | conditional condition' body' elifs' otherwise?' s' =>
      simp only [Stmt.traces, Branch.tracesAll_eq, Block.traces?_eq, AllWritable.append_iff,
        AllWritable.flatMap_iff, AllWritable.elim_iff] at h h'
      simp only [Stmt.sexpr, Branch.sexprAll_eq, Block.otherwiseSExpr?_eq, form_inj, List.cons.injEq,
        true_and] at heq
      obtain ⟨hconditions, hbodies, hbehind⟩ := heq
      obtain ⟨hbranches, helse⟩ := SExpr.append_inj_of_head .otherwise (by simp [Branch.sexpr_eq])
        (by simp [Branch.sexpr_eq]) (by simp) (by simp) hbehind
      simp only [Stmt.bare, Branch.bareAll_eq, Block.bare?_eq, hcondition h.1 _ h'.1 hconditions,
        hbody h.2.1 _ h'.2.1 hbodies, ToldBy.map helifs h.2.2.1 h'.2.2.1 hbranches,
        ToldBy.option (fun b member => (hotherwise b member).inside otherwise_injective) h.2.2.2 h'.2.2.2 helse]
    | _ => simp [Function.sexpr_eq] at heq
  forLoop i s hiterable hbody h t h' heq := by
    cases t with
    | forLoop i' iterable' body' s' =>
      simp only [Stmt.traces, AllWritable.cons_iff, AllWritable.append_iff] at h h'
      simp only [Stmt.sexpr, form_inj, List.cons.injEq, SExpr.atom.injEq, true_and, and_true] at heq
      obtain ⟨hname, hiterables, hbodies⟩ := heq
      simp only [Stmt.bare, Ident.bare, hname, hiterable h.2.1 _ h'.2.1 hiterables,
        hbody h.2.2 _ h'.2.2 hbodies]
    | _ => simp [Function.sexpr_eq] at heq
  breakLoop s h t h' heq := by
    cases t with
    | breakLoop => rfl
    | _ => simp [Function.sexpr_eq] at heq
  continueLoop s h t h' heq := by
    cases t with
    | continueLoop => rfl
    | _ => simp [Function.sexpr_eq] at heq
  expression s hvalue h t h' heq := by
    -- An expression shares a head with a function inside a block only, and not what stands behind it.
    cases t with
    | expression value' s' => simp only [Stmt.bare, hvalue h _ h' heq]
    | _ => simp at heq
  native i symbol s h t h' heq := by
    cases t with
    | native i' symbol' s' =>
      simp only [Stmt.sexpr, form_inj, List.cons.injEq, SExpr.atom.injEq, SExpr.quoted.injEq, true_and,
        and_true] at heq
      simp only [Stmt.bare, Ident.bare, heq.1, heq.2]
    | _ => simp [Function.sexpr_eq] at heq
  imports list s h t h' heq := by
    cases t with
    | imports list' s' =>
      simp only [Stmt.traces, AllWritable.flatMap_iff] at h h'
      simp only [Stmt.sexpr, form_inj, true_and] at heq
      simp only [Stmt.bare, ToldBy.map (fun i _ => i.toldBySExpr) h h' heq]
    | _ => simp [Function.sexpr_eq] at heq
  assign op s htarget hvalue h t h' heq := by
    cases t with
    | assign target' op' value' s' =>
      simp only [Stmt.traces, AllWritable.append_iff] at h h'
      simp only [Stmt.sexpr, form_inj, Head.assign.injEq, List.cons.injEq, and_true] at heq
      obtain ⟨hop, htargets, hvalues⟩ := heq
      simp only [Stmt.bare, hop, htarget h.1 _ h'.1 htargets, hvalue h.2 _ h'.2 hvalues]
    | _ => simp [Function.sexpr_eq] at heq
  define s htarget hvalue h t h' heq := by
    cases t with
    | define target' value' s' =>
      simp only [Stmt.traces, AllWritable.append_iff] at h h'
      simp only [Stmt.sexpr, form_inj, List.cons.injEq, true_and, and_true] at heq
      simp only [Stmt.bare, htarget h.1 _ h'.1 heq.1, hvalue h.2 _ h'.2 heq.2]
    | _ => simp [Function.sexpr_eq] at heq
  nested s hdefinition h t h' heq := by
    cases t with
    | function definition' s' => simp only [Stmt.bare, hdefinition h _ h' heq]
    | expression => simp at heq
    | _ => simp [Function.sexpr_eq] at heq
  branch s hcondition hbody h b' h' heq := by
    obtain ⟨condition', body', s'⟩ := b'
    simp only [Branch.traces, AllWritable.append_iff] at h h'
    simp only [Branch.sexpr, form_inj, List.cons.injEq, true_and, and_true] at heq
    simp only [Branch.bare, hcondition h.1 _ h'.1 heq.1, hbody h.2 _ h'.2 heq.2]
  function i is? s hbody h f' h' heq := by
    obtain ⟨i', is?', body?', s'⟩ := f'
    simp only [Function.traces, Block.traces?_eq, AllWritable.cons_iff, AllWritable.append_iff,
      AllWritable.elim_iff] at h h'
    simp only [Function.sexpr, Block.sexpr?_eq, form_inj, List.cons.injEq, SExpr.atom.injEq, true_and] at heq
    obtain ⟨hname, hbehind⟩ := heq
    obtain ⟨hparameters, hbodies⟩ := SExpr.append_inj_of_head .block SExpr.hasHead_of_mem_names?
      SExpr.hasHead_of_mem_names? (by simp [Block.sexpr_eq]) (by simp [Block.sexpr_eq]) hbehind
    simp only [Function.bare, Block.bare?_eq, Ident.bare, hname, eq_of_names?_eq hparameters,
      ToldBy.option hbody h.2.2 h'.2.2 hbodies]

/-- Up to spans, a definition is told by its s-expression. -/
theorem Definition.toldBySExpr (d : Definition) :
    ToldBy Definition.traces Definition.sexpr Definition.bare d := by
  intro h d' h' heq
  have hfunction : ∀ f, ToldBy Function.traces Function.sexpr Function.bare f :=
    toldBySExpr_hereditary.ofFunction
  have hblock : ∀ b, ToldBy Block.traces Block.sexpr Block.bare b := toldBySExpr_hereditary.ofBlock
  cases d with
  | function f =>
    cases d' with
    | function f' => simp only [Definition.bare, hfunction f h f' h' heq]
    | _ => simp [Definition.sexpr, Function.sexpr_eq] at heq
  | trait t =>
    cases d' with
    | trait t' =>
      simp only [Definition.traces, AllWritable.cons_iff, AllWritable.flatMap_iff] at h h'
      simp only [Definition.sexpr, form_inj, List.cons.injEq, SExpr.atom.injEq, true_and] at heq
      simp only [Definition.bare, Ident.bare, heq.1, ToldBy.map (fun f _ => hfunction f) h.2 h'.2 heq.2]
    | _ => simp [Definition.sexpr, Function.sexpr_eq] at heq
  | type t =>
    cases d' with
    | type t' =>
      simp only [Definition.traces, Block.traces?_eq, AllWritable.cons_iff, AllWritable.append_iff,
        AllWritable.elim_iff] at h h'
      simp only [Definition.sexpr, Block.sexpr?_eq, form_inj, List.cons.injEq, SExpr.atom.injEq, true_and,
        ← List.append_assoc] at heq
      obtain ⟨hname, hbehind⟩ := heq
      have hnone (t : TypeDef) :
          ∀ s ∈ names? t.parameters? ++ traitsSExpr? t.traits?, s.hasHead .block = false :=
        List.forall_mem_append.2 ⟨SExpr.hasHead_of_mem_names?, SExpr.hasHead_of_mem_traitsSExpr?⟩
      obtain ⟨hclauses, hbodies⟩ := SExpr.append_inj_of_head .block (hnone t) (hnone t')
        (by simp [Block.sexpr_eq]) (by simp [Block.sexpr_eq]) hbehind
      obtain ⟨hparameters, htraits⟩ := SExpr.append_inj_of_head .impl SExpr.hasHead_of_mem_names?
        SExpr.hasHead_of_mem_names? SExpr.hasHead_of_mem_traitsSExpr? SExpr.hasHead_of_mem_traitsSExpr? hclauses
      simp only [Definition.bare, Block.bare?_eq, Ident.bare, hname, eq_of_names?_eq hparameters,
        eq_of_traitsSExpr?_eq htraits,
        ToldBy.option (fun b _ => hblock b) h.2.2.2 h'.2.2.2 hbodies]
    | _ => simp [Definition.sexpr, Function.sexpr_eq] at heq
  | unit u =>
    cases d' with
    | unit u' =>
      simp only [Definition.traces, Block.traces?_eq, AllWritable.cons_iff, AllWritable.elim_iff] at h h'
      simp only [Definition.sexpr, Block.sexpr?_eq, form_inj, List.cons.injEq, SExpr.atom.injEq,
        true_and] at heq
      simp only [Definition.bare, Block.bare?_eq, Ident.bare, heq.1,
        ToldBy.option (fun b _ => hblock b) h.2 h'.2 heq.2]
    | _ => simp [Definition.sexpr, Function.sexpr_eq] at heq

/-- A statement that stands at top level is no definition: functions are not statements there, and neither
are expressions. -/
theorem Item.sexpr_ne_definition {s : Stmt} (d : Definition) (h : (Item.statement s).shaped = true) :
    s.sexpr ≠ d.sexpr := by
  cases s with
  | expression | function => cases h
  | _ => cases d <;> simp [Definition.sexpr, Function.sexpr_eq]

/-- Up to spans, an item of the shape that can be written down is told by its s-expression. -/
theorem Item.bare_eq_of_sexpr_eq {i i' : Item} (hshaped : i.shaped = true) (hshaped' : i'.shaped = true)
    (h : AllWritable i.traces) (h' : AllWritable i'.traces) (heq : i.sexpr = i'.sexpr) : i.bare = i'.bare := by
  cases i with
  | definition d =>
    cases i' with
    | definition d' => exact congrArg Item.definition (d.toldBySExpr h d' h' heq)
    | statement s' => exact absurd heq.symm (sexpr_ne_definition d hshaped')
  | statement s =>
    cases i' with
    | definition d' => exact absurd heq (sexpr_ne_definition d' hshaped)
    | statement s' => exact congrArg Item.statement (toldBySExpr_hereditary.ofStmt s h s' h' heq)

theorem Program.text_bare (p : Program) : p.bare.text = p.text := by
  apply String.toList_inj.1
  rw [Program.text_toList, Program.text_toList, Program.bare, map_map_bare fun i _ => i.sexpr_bare]

/-- Two programs whose names and numbers can be written, and whose items have the shape that can be written
down, are written alike exactly if they are the same up to spans. -/
theorem Program.text_eq_iff {p q : Program} (hp : p.shaped = true) (hq : q.shaped = true)
    (hp' : AllWritable p.traces) (hq' : AllWritable q.traces) : p.text = q.text ↔ p.bare = q.bare := by
  constructor
  · intro htext
    rw [Program.shaped, List.all_eq_true] at hp hq
    rw [Program.traces, AllWritable.flatMap_iff] at hp' hq'
    have hplain {items : List Item} (h : ∀ i ∈ items, AllWritable i.traces) :
        ∀ s ∈ items.map Item.sexpr, s.Plain :=
      List.forall_mem_map.2 fun i member => Item.sexpr_plain (h i member)
    have hchars := congrArg String.toList htext
    rw [Program.text_toList, Program.text_toList] at hchars
    have hsexprs : p.items.map Item.sexpr = q.items.map Item.sexpr :=
      SExpr.eq_of_intercalate_eq (by decide) (hplain hp') (hplain hq') hchars
    have hitems : p.items.map Item.bare = q.items.map Item.bare :=
      map_eq_map_of (fun i member i' member' => Item.bare_eq_of_sexpr_eq (hp i member) (hq i' member')
        (hp' i member) (hq' i' member')) hsexprs
    rw [Program.bare, Program.bare, hitems]
  · intro hbare
    rw [← p.text_bare, hbare, q.text_bare]

end WattFront
