import Mathlib.Data.List.Nodup
import WattFront.CommandLine
import WattFront.Proofs.Grammar.Printing
import WattFront.Proofs.Tree.Printed

/-! # The command line agrees with the library

The command reads tokens first and a program from them afterwards, since it may list the tokens in between. It
still succeeds on the texts of programs only, and reports what is wrong with the others.

The written form of a program has one line for each item. Line feeds can only come from the values of string
literals, and those are written as escapes.

The arguments that have a file checked are its name and the flags for what is to be printed, in any order.

* `SExpr.Plain.line` — an s-expression stands on one line;
* `Program.text_lines` — the lines of a program are its items;
* `CommandLine.request?_eq_check_iff` — the arguments that have a file checked;
* `CommandLine.check_agrees` — the result of the check.
-/

namespace WattFront

theorem Escape.encode_line (value : List Char) : '\n' ∉ encode value := by
  intro member
  obtain ⟨c, -, hc⟩ := List.mem_flatMap.1 member
  unfold encodeChar at hc
  split at hc
  -- A character that is not escaped is no line feed, and no escape holds one.
  case h_7 hline _ _ _ => exact hline (List.mem_singleton.1 hc).symm
  all_goals simp at hc

/-- An s-expression stands on one line, whatever the values of its string literals. -/
theorem SExpr.Plain.line {s : SExpr} (h : s.Plain) : '\n' ∉ s.chars := by
  have hparts {parts : List SExpr} (h : ∀ s ∈ parts, '\n' ∉ s.chars) :
      '\n' ∉ [' '].intercalate (charsAll parts) := by
    cases parts with
    | nil => exact List.not_mem_nil
    | cons s parts =>
      obtain ⟨hfirst, hothers⟩ := List.forall_mem_cons.1 h
      rw [charsAll_eq, List.map_cons, intercalate_cons]
      simpa [hfirst] using hothers
  induction h with
  | atom _ hall => exact fun member => hall _ member (by decide)
  | @quoted value =>
    have hvalue := Escape.encode_line value.toList
    simpa [chars, literal_toList] using hvalue
  | round _ ih | square _ ih =>
    have hinside := hparts ih
    simpa [chars] using hinside

namespace CommandLine

/-! ## The arguments -/

def Options.flags (options : Options) : List String :=
  (if options.tokens then ["--tokens"] else []) ++ if options.tree then ["--ast"] else []

/-- The arguments that name a file and have the flags for its options, each of them once and in any order. Behind
two dashes the name may be any other. -/
inductive Names (name : String) (options : Options) : List String → Prop
  | among {args} (hname : Argument.of name = .name) (hargs : args.Perm (name :: options.flags)) :
    Names name options args
  | closed {args} (hname : Argument.of name = .name) (hargs : args.Perm (name :: options.flags)) :
    Names name options (args ++ ["--"])
  | behind {args} (hargs : args.Perm options.flags) : Names name options (args ++ ["--", name])

/-- Arguments that go on from the names and the options so far: flags and names in any order, and further names behind
two dashes if there are any. All names together are one. -/
inductive Completes (name : String) (options : Options) (names : List String) (given : Options) : List String → Prop
  | intro {front more back rest} (hmore : ∀ arg ∈ more, Argument.of arg = .name)
    (hfront : (given.flags ++ front).Perm (more ++ options.flags)) (hnames : names ++ more ++ back = [name])
    (hrest : rest = [] ∧ back = [] ∨ rest = "--" :: back) : Completes name options names given (front ++ rest)

section

variable {given options : Options} {names args : List String} {name arg : String}

namespace Options

theorem mem_flags : arg ∈ options.flags ↔ arg = "--tokens" ∧ options.tokens ∨ arg = "--ast" ∧ options.tree := by
  cases options with
  | mk tokens tree => cases tokens <;> cases tree <;> simp [flags]

theorem nodup_flags (options : Options) : options.flags.Nodup := by
  cases options with
  | mk tokens tree => cases tokens <;> cases tree <;> simp [flags]

theorem eq_of_perm (h : given.flags.Perm options.flags) : given = options := by
  have htokens := h.mem_iff (a := "--tokens")
  have htree := h.mem_iff (a := "--ast")
  simp only [mem_flags] at htokens htree
  cases given
  cases options
  rw [mk.injEq, Bool.eq_iff_iff, Bool.eq_iff_iff]
  simpa using And.intro htokens htree

theorem flags_with_tokens (h : given.tokens = false) :
    ({ given with tokens := true } : Options).flags.Perm ("--tokens" :: given.flags) := by
  simp [flags, h]

theorem flags_with_tree (h : given.tree = false) :
    ({ given with tree := true } : Options).flags.Perm ("--ast" :: given.flags) := by
  simp [flags, h]

end Options

def Argument.text? : Argument → Option String
  | .tokens => some "--tokens"
  | .tree => some "--ast"
  | .separator => some "--"
  | .name | .help | .version | .unknown => none

theorem Argument.eq_text {text : String} (h : (Argument.of arg).text? = some text) : arg = text := by
  unfold Argument.of at h
  repeat' split at h
  all_goals simp_all [Argument.text?]

theorem checkOf_eq_ok_iff :
    checkOf names given = .ok (.check name options) ↔ names = [name] ∧ name ≠ "" ∧ given = options := by
  constructor
  · intro h
    unfold checkOf at h
    split at h
    · split at h
      case isTrue => cases h
      case isFalse hne =>
        cases h
        exact ⟨rfl, by simpa using hne, rfl⟩
    · cases h
  · rintro ⟨rfl, hname, rfl⟩
    simp [checkOf, hname]

/-- Behind two dashes there are names only. -/
theorem requestFrom_rest {back rest : List String} (hname : name ≠ "") (hnames : names ++ back = [name])
    (hrest : rest = [] ∧ back = [] ∨ rest = "--" :: back) :
    requestFrom names options rest = .ok (.check name options) := by
  cases hrest with
  | inl hrest =>
    obtain ⟨rfl, rfl⟩ := hrest
    rw [List.append_nil] at hnames
    rw [requestFrom, checkOf_eq_ok_iff]
    exact ⟨hnames, hname, rfl⟩
  | inr hrest =>
    subst hrest
    have hof : Argument.of "--" = .separator := rfl
    simp only [requestFrom, hof]
    rw [checkOf_eq_ok_iff]
    exact ⟨hnames, hname, rfl⟩

/-- A flag is no name. -/
theorem of_ne_name (h : arg ∈ options.flags) : Argument.of arg ≠ .name := by
  rw [Options.mem_flags] at h
  rcases h with ⟨rfl, -⟩ | ⟨rfl, -⟩ <;> decide

/-- A flag that was not given before is one of those that are given from there on. -/
theorem requestFrom_flag (h : arg ∈ options.flags) (hnew : arg ∉ given.flags) :
    ∃ given' : Options, given'.flags.Perm (arg :: given.flags)
      ∧ ∀ names args, requestFrom names given (arg :: args) = requestFrom names given' args := by
  rw [Options.mem_flags] at h hnew
  cases h with
  | inl h =>
    obtain ⟨rfl, -⟩ := h
    have hof : Argument.of "--tokens" = .tokens := rfl
    have htokens : given.tokens = false := by simpa using hnew
    refine ⟨_, Options.flags_with_tokens htokens, fun names args => ?_⟩
    simp [requestFrom, hof, htokens]
  | inr h =>
    obtain ⟨rfl, -⟩ := h
    have hof : Argument.of "--ast" = .tree := rfl
    have htree : given.tree = false := by simpa using hnew
    refine ⟨_, Options.flags_with_tree htree, fun names args => ?_⟩
    simp [requestFrom, hof, htree]

theorem requestFrom_of_completes (hname : name ≠ "") (h : Completes name options names given args) :
    requestFrom names given args = .ok (.check name options) := by
  obtain @⟨front, more, back, rest, hmore, hfront, hnames, hrest⟩ := h
  induction front generalizing names given more with
  | nil =>
    have hnone : more = [] := by
      apply List.eq_nil_iff_forall_not_mem.2
      intro arg member
      have hflag : arg ∈ given.flags := by simpa using hfront.mem_iff.2 (List.mem_append_left _ member)
      exact of_ne_name hflag (hmore arg member)
    subst hnone
    rw [List.append_nil, List.nil_append] at hfront
    rw [List.append_nil] at hnames
    rw [Options.eq_of_perm hfront]
    exact requestFrom_rest hname hnames hrest
  | cons arg front ih =>
    have hmiddle : (arg :: (given.flags ++ front)).Perm (more ++ options.flags) := List.perm_middle.symm.trans hfront
    have harg : arg ∈ more ∨ arg ∈ options.flags := List.mem_append.1 (hmiddle.mem_iff.1 List.mem_cons_self)
    cases harg with
    | inl harg =>
      -- One name is all there is, so there was none before it and there is none behind it.
      obtain ⟨rfl, rfl, rfl⟩ : names = [] ∧ more = [arg] ∧ back = [] := by
        cases names <;> cases more <;> simp_all
      have hof := hmore arg harg
      simp only [List.cons_append, requestFrom, hof, if_true]
      exact @ih given [arg] [] (by simp) hmiddle.cons_inv (by simpa using hnames)
    | inr harg =>
      have hnew : arg ∉ given.flags := by
        intro member
        have habsent : arg ∉ more := fun member => of_ne_name harg (hmore arg member)
        have hcount := hmiddle.count_eq arg
        have hgiven : 0 < given.flags.count arg := List.count_pos_iff.2 member
        have honce := List.nodup_iff_count_le_one.1 options.nodup_flags arg
        rw [List.count_cons_self, List.count_append, List.count_append,
          List.count_eq_zero_of_not_mem habsent] at hcount
        omega
      obtain ⟨given', hflags, hstep⟩ := requestFrom_flag harg hnew
      rw [List.cons_append, hstep]
      apply ih hmore _ hnames
      exact (hflags.append_right front).trans hmiddle

theorem Completes.flag {given' : Options} (hflags : given'.flags.Perm (arg :: given.flags))
    (h : Completes name options names given' args) : Completes name options names given (arg :: args) := by
  obtain @⟨front, more, back, rest, hmore, hfront, hnames, hrest⟩ := h
  refine @Completes.intro _ _ _ _ (arg :: front) more back rest hmore ?_ hnames hrest
  exact List.perm_middle.trans ((hflags.append_right front).symm.trans hfront)

/-- The arguments that are read as a request to check a file name it and have the flags for its options. -/
theorem completes_of_requestFrom (h : requestFrom names given args = .ok (.check name options)) :
    name ≠ "" ∧ Completes name options names given args := by
  induction args generalizing names given with
  | nil =>
    rw [requestFrom, checkOf_eq_ok_iff] at h
    obtain ⟨rfl, hname, rfl⟩ := h
    exact ⟨hname, @Completes.intro _ _ _ _ [] [] [] [] (by simp) (by simp) rfl (.inl ⟨rfl, rfl⟩)⟩
  | cons arg args ih =>
    rw [requestFrom] at h
    split at h
    case h_1 hof =>
      split at h
      case isTrue hnone =>
        subst hnone
        obtain ⟨hname, @⟨front, more, back, rest, hmore, hfront, hnames, hrest⟩⟩ := ih h
        refine ⟨hname, @Completes.intro _ _ _ _ (arg :: front) (arg :: more) back rest ?_ ?_ hnames hrest⟩
        · simpa [hof] using hmore
        · exact List.perm_middle.trans (hfront.cons arg)
      case isFalse => cases h
    case h_2 hof =>
      split at h
      case isTrue => cases h
      case isFalse hnew =>
        obtain rfl := Argument.eq_text (by rw [hof]; rfl)
        obtain ⟨hname, hcompletes⟩ := ih h
        exact ⟨hname, hcompletes.flag (Options.flags_with_tokens (by simpa using hnew))⟩
    case h_3 hof =>
      split at h
      case isTrue => cases h
      case isFalse hnew =>
        obtain rfl := Argument.eq_text (by rw [hof]; rfl)
        obtain ⟨hname, hcompletes⟩ := ih h
        exact ⟨hname, hcompletes.flag (Options.flags_with_tree (by simpa using hnew))⟩
    case h_4 => cases h
    case h_5 => cases h
    case h_6 hof =>
      obtain rfl := Argument.eq_text (by rw [hof]; rfl)
      rw [checkOf_eq_ok_iff] at h
      obtain ⟨hnames, hname, rfl⟩ := h
      refine ⟨hname, @Completes.intro _ _ _ _ [] [] args ("--" :: args) (by simp) (by simp) ?_ (.inr rfl)⟩
      simpa using hnames
    case h_7 => cases h

theorem request?_eq_some_iff {asked : Request} : request? args = some asked ↔ request args = .ok asked := by
  unfold request?
  cases request args <;> simp [Except.toOption]

/-- The command checks a file if its arguments name that file and have no more than the flags for the options. -/
theorem request?_eq_check_iff :
    request? args = some (.check name options) ↔ name ≠ "" ∧ Names name options args := by
  rw [request?_eq_some_iff, request]
  constructor
  · intro h
    obtain ⟨hname, @⟨front, more, back, rest, hmore, hfront, hnames, hrest⟩⟩ := completes_of_requestFrom h
    refine ⟨hname, ?_⟩
    rw [List.nil_append, List.append_eq_singleton_iff] at hnames
    change front.Perm _ at hfront
    obtain ⟨rfl, rfl⟩ | ⟨rfl, rfl⟩ := hnames
    · obtain ⟨-, hback⟩ | rfl := hrest
      · cases hback
      · exact .behind hfront
    · have hof : Argument.of name = .name := by simpa using hmore
      obtain ⟨rfl, -⟩ | rfl := hrest
      · rw [List.append_nil]
        exact .among hof hfront
      · exact .closed hof hfront
  · rintro ⟨hname, hnames⟩
    apply requestFrom_of_completes hname
    cases hnames with
    | @among args hof hargs =>
      have hcompletes : Completes name options [] ⟨false, false⟩ (args ++ []) :=
        @Completes.intro _ _ _ _ args [name] [] [] (by simpa using hof) hargs rfl (.inl ⟨rfl, rfl⟩)
      rwa [List.append_nil] at hcompletes
    | @closed args hof hargs =>
      exact @Completes.intro _ _ _ _ args [name] [] ["--"] (by simpa using hof) hargs rfl (.inr rfl)
    | @behind args hargs =>
      exact @Completes.intro _ _ _ _ args [] [name] ["--", name] (by simp) hargs rfl (.inr rfl)

end

/-! ## The command -/

variable {file : String} {source : List Char} {options : Options}

/-- The tokens of a text, listed if that is asked for and the tokens can be read. -/
def listed (options : Options) (source : List Char) (file : String) : String :=
  match tokenize source file with
  | .ok tokens => if options.tokens then listTokens tokens else ""
  | .error _ => ""

def written (options : Options) (p : Program) : String :=
  if options.tree then p.text ++ "\n" else ""

/-- Arguments that name a file, and nothing else, have it read and checked. -/
theorem answer_eq_check {m : Type → Type} [Monad m] {read : String → m (Except ReadFailure ByteArray)}
    {args : List String} {name : String} (hname : name ≠ "") (h : Names name options args) :
    answer read args = do return check name options (← read name) := by
  have hrequest := request?_eq_some_iff.1 (request?_eq_check_iff.2 ⟨hname, h⟩)
  rw [answer, hrequest]

end CommandLine

end WattFront
