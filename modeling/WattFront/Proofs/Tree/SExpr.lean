import WattFront.Proofs.Token.Word

/-! # S-expressions are read in one way

The written form of a tree is an s-expression: atoms, string literals, and groups of parts in parentheses or
brackets, with one blank between any two parts. If no atom holds a character that ends an atom or opens
something else, a text can be taken for the text of one s-expression only, whatever stands behind it.

* `SExpr.Plain.unique` — two s-expressions at the front of the same text are the same;
* `SExpr.eq_of_intercalate_eq` — and so are two lists of them, with the same character between any two.
-/

namespace WattFront

inductive SExpr where
  | atom (text : String)
  /-- A string literal for a value. -/
  | quoted (value : String)
  | round (parts : List SExpr)
  | square (parts : List SExpr)

namespace SExpr

mutual

def chars : SExpr → List Char
  | .atom text => text.toList
  | .quoted value => (Escape.literal value).toList
  | .round parts => '(' :: ([' '].intercalate (charsAll parts) ++ [')'])
  | .square parts => '[' :: ([' '].intercalate (charsAll parts) ++ [']'])

def charsAll : List SExpr → List (List Char)
  | [] => []
  | s :: ss => s.chars :: charsAll ss

end

@[simp] theorem charsAll_eq (ss : List SExpr) : charsAll ss = ss.map chars := by
  induction ss with
  | nil => rfl
  | cons s ss ih => rw [charsAll, ih, List.map_cons]

/-- The characters that end an s-expression when they stand behind it. -/
def delimiters : List Char :=
  [' ', '\n', ')', ']']

def closings : List Char :=
  [')', ']']

def reserved : List Char :=
  ['(', '[', '\x27'] ++ delimiters

/-- An s-expression all of whose atoms can be told from what stands around them. -/
inductive Plain : SExpr → Prop
  | atom {text} (hne : text.toList ≠ []) (hall : ∀ c ∈ text.toList, c ∉ reserved) : Plain (.atom text)
  | quoted {value} : Plain (.quoted value)
  | round {parts} (h : ∀ s ∈ parts, Plain s) : Plain (.round parts)
  | square {parts} (h : ∀ s ∈ parts, Plain s) : Plain (.square parts)

theorem closings_subset : closings ⊆ delimiters := by
  decide

/-- The characters that may stand between s-expressions. -/
theorem delimits_of_mem {separator : Char} (h : separator ∈ [' ', '\n']) :
    separator ∉ closings ∧ separator ∈ delimiters := by
  simp only [List.mem_cons, List.not_mem_nil, or_false] at h
  rcases h with rfl | rfl <;> decide

theorem plain_of_all {text : String} (hne : text.toList ≠ [])
    (hall : text.toList.all (fun c => decide (c ∉ reserved)) = true) : (SExpr.atom text).Plain :=
  .atom hne fun c member => of_decide_eq_true (List.all_eq_true.1 hall c member)

/-- Whether a text starts with one of some characters, if it is not empty. -/
def StartsIn (cs : List Char) (rest : List Char) : Prop :=
  ∀ c ∈ rest.head?, c ∈ cs

/-- Whatever s-expressions a text starts with, if it goes on with delimiters they are the given one. -/
def Unique (s : SExpr) : Prop :=
  ∀ ⦃t⦄, t.Plain → ∀ ⦃rest rest'⦄, StartsIn delimiters rest → StartsIn delimiters rest' →
    s.chars ++ rest = t.chars ++ rest' → s = t ∧ rest = rest'

/-! ## String literals -/

theorem literal_toList (value : String) :
    (Escape.literal value).toList = '\x27' :: (Escape.encode value.toList ++ ['\x27']) := by
  simp [Escape.literal]

/-- A string literal ends at its closing quote, and no two values have the same one. -/
theorem literal_unique {value value' : String} {rest rest' : List Char}
    (h : (Escape.literal value).toList ++ rest = (Escape.literal value').toList ++ rest') :
    value = value' ∧ rest = rest' := by
  have hsplit (value : String) (rest : List Char) :
      Lexeme.splitString [] (Escape.encode value.toList ++ '\x27' :: rest)
        = some (Escape.encode value.toList, rest) :=
    Lexeme.splitString_append (stringBody_encode _)
  simp only [literal_toList, List.cons_append, List.append_assoc, List.nil_append, List.cons.injEq,
    true_and] at h
  have hboth := hsplit value rest
  rw [h, hsplit value' rest', Option.some.injEq, Prod.mk.injEq] at hboth
  have hvalue : value'.toList = value.toList := by
    rw [← Escape.decode_encode value'.toList, hboth.1, Escape.decode_encode]
  exact ⟨String.toList_inj.1 hvalue.symm, hboth.2.symm⟩

/-! ## Parts -/

theorem intercalate_cons (separator : Char) (text : List Char) (texts : List (List Char)) :
    [separator].intercalate (text :: texts) = text ++ texts.flatMap (separator :: ·) := by
  induction texts generalizing text with
  | nil => simp
  | cons text' texts ih => rw [List.intercalate_cons_cons, ih]; simp

variable {s t : SExpr} {ss ts : List SExpr} {rest rest' : List Char}

/-- The first character of an s-expression says what it is, and ends nothing. -/
theorem Plain.head (h : s.Plain) : ∃ c tail, s.chars = c :: tail ∧ c ∉ delimiters := by
  cases h with
  | @atom text hne hall =>
    obtain ⟨c, tail, htext⟩ := List.exists_cons_of_ne_nil hne
    refine ⟨c, tail, htext, fun member => hall c ?_ (List.mem_append_right _ member)⟩
    rw [htext]
    exact List.mem_cons_self
  | quoted => exact ⟨_, _, literal_toList _, by decide⟩
  | round | square => exact ⟨_, _, rfl, by decide⟩

/-- What stands behind a part: another one behind a separator, or what stands behind them all. -/
theorem startsIn_behind {separator : Char} (hseparator : separator ∈ delimiters)
    (hrest : StartsIn closings rest) :
    StartsIn delimiters (ss.flatMap (fun s => separator :: s.chars) ++ rest) := by
  intro c hc
  cases ss with
  | nil => exact closings_subset (hrest c hc)
  | cons s ss =>
    cases hc
    exact hseparator

/-- Parts with a separator in front of each of them. -/
theorem behind_unique {separator : Char} (hseparator : separator ∈ [' ', '\n'])
    (hss : ∀ s ∈ ss, s.Unique) (hts : ∀ t ∈ ts, t.Plain) (hrest : StartsIn closings rest)
    (hrest' : StartsIn closings rest')
    (h : ss.flatMap (fun s => separator :: s.chars) ++ rest
      = ts.flatMap (fun t => separator :: t.chars) ++ rest') : ss = ts ∧ rest = rest' := by
  have hopen := delimits_of_mem hseparator
  induction ss generalizing ts with
  | nil =>
    cases ts with
    | nil => exact ⟨rfl, h⟩
    | cons t ts =>
      rw [List.flatMap_nil, List.nil_append] at h
      exact absurd (hrest separator (by rw [h]; rfl)) hopen.1
  | cons s ss ih =>
    cases ts with
    | nil =>
      rw [List.flatMap_nil, List.nil_append] at h
      exact absurd (hrest' separator (by rw [← h]; rfl)) hopen.1
    | cons t ts =>
      simp only [List.flatMap_cons, List.cons_append, List.append_assoc, List.cons.injEq, true_and] at h
      obtain ⟨hfirst, hothers⟩ := List.forall_mem_cons.1 hss
      obtain ⟨hplain, hplains⟩ := List.forall_mem_cons.1 hts
      obtain ⟨hst, hbehind⟩ :=
        hfirst hplain (startsIn_behind hopen.2 hrest) (startsIn_behind hopen.2 hrest') h
      obtain ⟨hsts, hend⟩ := ih hothers hplains hbehind
      exact ⟨by rw [hst, hsts], hend⟩

/-- Parts with a separator between any two of them. -/
theorem intercalate_unique {separator : Char} (hseparator : separator ∈ [' ', '\n'])
    (hss : ∀ s ∈ ss, s.Unique) (hplain : ∀ s ∈ ss, s.Plain) (hts : ∀ t ∈ ts, t.Plain)
    (hrest : StartsIn closings rest) (hrest' : StartsIn closings rest')
    (h : [separator].intercalate (ss.map chars) ++ rest = [separator].intercalate (ts.map chars) ++ rest') :
    ss = ts ∧ rest = rest' := by
  have hdelimiter : separator ∈ delimiters := (delimits_of_mem hseparator).2
  have hopen {s : SExpr} {ss : List SExpr} {rest rest' : List Char} (hs : s.Plain)
      (hrest' : StartsIn closings rest') :
      [separator].intercalate ((s :: ss).map chars) ++ rest ≠ rest' := by
    rintro rfl
    obtain ⟨c, tail, hchars, hc⟩ := hs.head
    rw [List.map_cons, intercalate_cons, hchars] at hrest'
    exact hc (closings_subset (hrest' c rfl))
  cases ss with
  | nil =>
    cases ts with
    | nil => exact ⟨rfl, h⟩
    | cons t ts => exact absurd h.symm (hopen (hts t List.mem_cons_self) hrest)
  | cons s ss =>
    obtain ⟨hfirst, hothers⟩ := List.forall_mem_cons.1 hss
    cases ts with
    | nil => exact absurd h (hopen (hplain s List.mem_cons_self) hrest')
    | cons t ts =>
      obtain ⟨hplain', hplains⟩ := List.forall_mem_cons.1 hts
      rw [List.map_cons, List.map_cons, intercalate_cons, intercalate_cons, List.flatMap_map,
        List.flatMap_map, List.append_assoc, List.append_assoc] at h
      obtain ⟨hst, hbehind⟩ :=
        hfirst hplain' (startsIn_behind hdelimiter hrest) (startsIn_behind hdelimiter hrest') h
      obtain ⟨hsts, hend⟩ := behind_unique hseparator hothers hplains hrest hrest' hbehind
      exact ⟨by rw [hst, hsts], hend⟩

/-! ## Groups -/

/-- The parts of two groups are the same, and so is what stands behind the closing brackets. -/
theorem parts_unique {close : Char} (hclose : close ∈ closings) (hss : ∀ s ∈ ss, s.Unique)
    (hplain : ∀ s ∈ ss, s.Plain) (hts : ∀ t ∈ ts, t.Plain)
    (h : [' '].intercalate (charsAll ss) ++ [close] ++ rest
      = [' '].intercalate (charsAll ts) ++ [close] ++ rest') : ss = ts ∧ rest = rest' := by
  have hcloses (rest : List Char) : StartsIn closings (close :: rest) := by
    intro c hc
    cases hc
    exact hclose
  rw [charsAll_eq, charsAll_eq, List.append_assoc, List.append_assoc] at h
  obtain ⟨hparts, hend⟩ :=
    intercalate_unique (by decide) hss hplain hts (hcloses rest) (hcloses rest') h
  exact ⟨hparts, (List.cons.inj hend).2⟩

/-- A text that starts with an atom starts with no reserved character. -/
theorem notMem_of_atom {text : String} (hne : text.toList ≠ []) (hall : ∀ c ∈ text.toList, c ∉ reserved)
    {c : Char} (h : text.toList ++ rest = c :: rest') : c ∉ reserved := by
  obtain ⟨d, tail, htext⟩ := List.exists_cons_of_ne_nil hne
  rw [htext, List.cons_append, List.cons.injEq] at h
  rw [← h.1]
  exact hall d (by rw [htext]; exact List.mem_cons_self)

/-- An atom goes on until a reserved character follows. -/
theorem atom_unique {text text' : String} (hall : ∀ c ∈ text.toList, c ∉ reserved)
    (hall' : ∀ c ∈ text'.toList, c ∉ reserved) (hrest : StartsIn delimiters rest)
    (hrest' : StartsIn delimiters rest') (h : text.toList ++ rest = text'.toList ++ rest') :
    text = text' ∧ rest = rest' := by
  have hrun {text rest : List Char} (hall : ∀ c ∈ text, c ∉ reserved) (hrest : StartsIn delimiters rest) :
      (text ++ rest).takeWhile (· ∉ reserved) = text
        ∧ (text ++ rest).dropWhile (· ∉ reserved) = rest := by
    have hin : ∀ c ∈ text, decide (c ∉ reserved) = true := fun c member => decide_eq_true (hall c member)
    have hmaximal : ∀ c ∈ rest.head?, decide (c ∉ reserved) = false := by
      intro c hc
      simp only [decide_eq_false_iff_not, not_not]
      exact List.mem_append_right _ (hrest c hc)
    exact ⟨takeWhile_append_eq hin hmaximal, dropWhile_append_eq hin hmaximal⟩
  have hleft := hrun hall hrest
  have hright := hrun hall' hrest'
  rw [h, hright.1, hright.2] at hleft
  exact ⟨String.toList_inj.1 hleft.1.symm, hleft.2.symm⟩

/-- A text starts with one plain s-expression only, whatever delimiters follow. -/
theorem Plain.unique (h : s.Plain) : s.Unique := by
  -- By induction on the first of two s-expressions; the first character shows what the second one is.
  induction h with
  | @atom text hne hall =>
    intro t ht rest rest' hrest hrest' heq
    cases ht with
    | atom hne' hall' =>
      obtain ⟨htext, hend⟩ := atom_unique hall hall' hrest hrest' heq
      exact ⟨by rw [htext], hend⟩
    | quoted =>
      simp only [chars, literal_toList, List.cons_append] at heq
      exact absurd (by decide) (notMem_of_atom hne hall heq)
    | round | square => exact absurd (by decide) (notMem_of_atom hne hall heq)
  | @quoted value =>
    intro t ht rest rest' _ _ heq
    cases ht with
    | quoted =>
      obtain ⟨hvalue, hend⟩ := literal_unique heq
      exact ⟨by rw [hvalue], hend⟩
    | atom hne hall =>
      simp only [chars, literal_toList, List.cons_append] at heq
      exact absurd (by decide) (notMem_of_atom hne hall heq.symm)
    | round | square => simp [chars, literal_toList] at heq
  | round h ih =>
    intro t ht rest rest' _ _ heq
    cases ht with
    | round h' =>
      simp only [chars, List.cons_append, List.cons.injEq, true_and] at heq
      obtain ⟨hparts, hend⟩ := parts_unique (by decide) ih h h' heq
      exact ⟨by rw [hparts], hend⟩
    | atom hne hall => exact absurd (by decide) (notMem_of_atom hne hall heq.symm)
    | quoted | square => simp [chars, literal_toList] at heq
  | square h ih =>
    intro t ht rest rest' _ _ heq
    cases ht with
    | square h' =>
      simp only [chars, List.cons_append, List.cons.injEq, true_and] at heq
      obtain ⟨hparts, hend⟩ := parts_unique (by decide) ih h h' heq
      exact ⟨by rw [hparts], hend⟩
    | atom hne hall => exact absurd (by decide) (notMem_of_atom hne hall heq.symm)
    | quoted | round => simp [chars, literal_toList] at heq

/-- Plain s-expressions with the same character between any two of them make up a text in one way only. -/
theorem eq_of_intercalate_eq {separator : Char} (hseparator : separator ∈ [' ', '\n'])
    (hss : ∀ s ∈ ss, s.Plain) (hts : ∀ t ∈ ts, t.Plain)
    (h : [separator].intercalate (ss.map chars) = [separator].intercalate (ts.map chars)) : ss = ts := by
  have hnothing : StartsIn closings [] := by
    intro c hc
    cases hc
  have hempty : [separator].intercalate (ss.map chars) ++ [] = [separator].intercalate (ts.map chars) ++ [] := by
    rw [h]
  have hunique : ∀ s ∈ ss, s.Unique := fun s member => (hss s member).unique
  exact (intercalate_unique hseparator hunique hss hts hnothing hnothing hempty).1

end SExpr

end WattFront
