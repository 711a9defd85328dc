import GribCatalog.Catalog.Expansion
import GribCatalog.Proofs.Outcome

/-! Variables in a text. A text splits into characters and expressions in one way, and what it
expands to is what its pieces stand for, one after another. A single pass over the characters, which
keeps what is open and never reads what it has put in, gives the same. -/

namespace GribCatalog.Expansion

variable {env : Environment} {cs e : List Char} {p : Piece}

/-! ### The pieces of a text -/

/-- Ways to split a text. An expression reaches to the first closing brace. -/
inductive Splits : List Char → List Piece → Prop
  | nil : Splits [] []
  | plain {c : Char} {cs : List Char} {ps : List Piece}
      (bare : ¬ ['$', '{'] <+: c :: cs) (rest : Splits cs ps) : Splits (c :: cs) (.plain c :: ps)
  | expression {e cs : List Char} {ps : List Piece} (first : '}' ∉ e) (rest : Splits cs ps) :
      Splits ('$' :: '{' :: (e ++ '}' :: cs)) (.expression e :: ps)
  | unclosed {e : List Char} (absent : '}' ∉ e) : Splits ('$' :: '{' :: e) [.unclosed e]

theorem pieces_plain {c : Char} (bare : ¬ ['$', '{'] <+: c :: cs) :
    pieces (c :: cs) = .plain c :: pieces cs := by
  rw [pieces]
  rintro rest rfl rfl
  exact bare ⟨rest, rfl⟩

theorem pieces_expression (first : '}' ∉ e) (cs : List Char) :
    pieces ('$' :: '{' :: (e ++ '}' :: cs)) = .expression e :: pieces cs := by
  rw [pieces]
  split
  · next h => simp [Text.splitOnce?_append first] at h
  · next h =>
    rw [Text.splitOnce?_append first] at h
    cases h
    rfl

theorem pieces_unclosed (absent : '}' ∉ e) : pieces ('$' :: '{' :: e) = [.unclosed e] := by
  rw [pieces]
  split
  · rfl
  · next h => simp [Text.splitOnce?_eq_none_iff.mpr absent] at h

theorem splits_pieces (cs : List Char) : Splits cs (pieces cs) := by
  fun_induction pieces cs with
  | case1 => exact .nil
  | case2 cs h => exact .unclosed (Text.splitOnce?_eq_none_iff.mp h)
  | case3 cs e rest h ih =>
    obtain ⟨first, rfl⟩ := Text.splitOnce?_eq_some_iff.mp h
    exact .expression first ih
  | case4 c cs bare ih =>
    refine .plain (fun ⟨rest, h⟩ => ?_) ih
    cases h
    exact bare rest rfl rfl

theorem Splits.eq_pieces {ps : List Piece} (h : Splits cs ps) : ps = pieces cs := by
  induction h with
  | nil => simp [pieces]
  | plain bare _ ih => rw [pieces_plain bare, ih]
  | expression first _ ih => rw [pieces_expression first, ih]
  | unclosed absent => rw [pieces_unclosed absent]

/-! ### What a piece stands for -/

def mark : List Char := [':', '-']

def nameIn (text : List Char) : String :=
  String.ofList (Text.trim text)

inductive Stands (env : Environment) : Piece → List Char → Prop
  | plain (c : Char) : Stands env (.plain c) [c]
  | required {e : List Char} {value : String} (unmarked : ¬ mark <:+: e)
      (set : env.lookup (nameIn e) = some value) : Stands env (.expression e) value.toList
  | value {name dflt : List Char} {value : String} (first : ¬ mark <:+: name)
      (set : env.lookup (nameIn name) = some value) (filled : value ≠ "") :
      Stands env (.expression (name ++ mark ++ dflt)) value.toList
  | dflt {name dflt : List Char} (first : ¬ mark <:+: name)
      (idle : ∀ value ∈ env.lookup (nameIn name), value = "") :
      Stands env (.expression (name ++ mark ++ dflt)) dflt

inductive Fails (env : Environment) : Piece → SettingsFault → Prop
  | unset {e : List Char} (unmarked : ¬ mark <:+: e) (unset : env.lookup (nameIn e) = none) :
      Fails env (.expression e) (.unset (String.ofList e))
  | unclosed (e : List Char) : Fails env (.unclosed e) (.unclosed (String.ofList e))

theorem reference_of_unmarked (unmarked : ¬ mark <:+: e) : reference e = (nameIn e, none) := by
  rw [reference, (Text.splitAt?_eq_none_iff (List.cons_ne_nil _ _)).mpr unmarked]
  rfl

theorem reference_of_marked {name : List Char} (first : ¬ mark <:+: name) (dflt : List Char) :
    reference (name ++ mark ++ dflt) = (nameIn name, some dflt) := by
  have hsplit : Text.splitAt? mark (name ++ mark ++ dflt) = some (name, dflt) := by
    rw [List.append_assoc]
    exact Text.splitAt?_append (by decide) first dflt
  rw [reference, ← mark, hsplit]
  rfl

theorem exists_marked (h : mark <:+: e) :
    ∃ name dflt, ¬ mark <:+: name ∧ e = name ++ mark ++ dflt := by
  cases hsplit : Text.splitAt? mark e with
  | none => exact absurd h ((Text.splitAt?_eq_none_iff (List.cons_ne_nil _ _)).mp hsplit)
  | some parts =>
    obtain ⟨heq, hfirst⟩ := Text.of_splitAt? (List.cons_ne_nil _ _) hsplit
    exact ⟨parts.1, parts.2, hfirst, heq⟩

theorem resolve_of_unmarked (unmarked : ¬ mark <:+: e) :
    resolve env e = match env.lookup (nameIn e) with
      | some value => .ok value.toList
      | none => .error (.unset (String.ofList e)) := by
  simp only [resolve, reference_of_unmarked unmarked]
  cases env.lookup (nameIn e) <;> rfl

theorem resolve_of_marked {name : List Char} (first : ¬ mark <:+: name) (dflt : List Char) :
    resolve env (name ++ mark ++ dflt) = match env.lookup (nameIn name) with
      | some value => .ok (if value = "" then dflt else value.toList)
      | none => .ok dflt := by
  simp only [resolve, reference_of_marked first]
  cases env.lookup (nameIn name) with
  | none => rfl
  | some value => by_cases h : value = "" <;> simp [h, Option.filter]

theorem Stands.expand_eq {t : List Char} (h : Stands env p t) : p.expand env = .ok t := by
  cases h with
  | plain c => rfl
  | required unmarked set => rw [Piece.expand, resolve_of_unmarked unmarked, set]
  | value first set filled =>
    rw [Piece.expand, resolve_of_marked first, set]
    simp only [filled, if_false]
  | @dflt name dflt first idle =>
    rw [Piece.expand, resolve_of_marked first]
    cases hset : env.lookup (nameIn name) with
    | none => rfl
    | some value => simp only [idle value hset, if_true]

theorem Fails.expand_eq {fault : SettingsFault} (h : Fails env p fault) :
    p.expand env = .error fault := by
  cases h with
  | unset unmarked unset => rw [Piece.expand, resolve_of_unmarked unmarked, unset]
  | unclosed e => rfl

theorem stands_or_fails (env : Environment) (p : Piece) :
    (∃ t, Stands env p t) ∨ ∃ fault, Fails env p fault := by
  cases p with
  | plain c => exact .inl ⟨_, .plain c⟩
  | unclosed e => exact .inr ⟨_, .unclosed e⟩
  | expression e =>
    by_cases hmark : mark <:+: e
    · obtain ⟨name, dflt, first, rfl⟩ := exists_marked hmark
      by_cases idle : ∀ value ∈ env.lookup (nameIn name), value = ""
      · exact .inl ⟨_, .dflt first idle⟩
      · simp only [not_forall] at idle
        obtain ⟨value, set, filled⟩ := idle
        exact .inl ⟨_, .value first set filled⟩
    · cases hset : env.lookup (nameIn e) with
      | none => exact .inr ⟨_, .unset hmark hset⟩
      | some value => exact .inl ⟨_, .required hmark hset⟩

theorem expand_eq_ok_iff {t : List Char} : p.expand env = .ok t ↔ Stands env p t := by
  refine ⟨fun h => ?_, Stands.expand_eq⟩
  rcases stands_or_fails env p with ⟨t', ht⟩ | ⟨fault, hfault⟩
  · rw [ht.expand_eq] at h
    cases h
    exact ht
  · rw [hfault.expand_eq] at h
    cases h

theorem expand_eq_error_iff {fault : SettingsFault} :
    p.expand env = .error fault ↔ Fails env p fault := by
  refine ⟨fun h => ?_, Fails.expand_eq⟩
  rcases stands_or_fails env p with ⟨t, ht⟩ | ⟨fault', hfault⟩
  · rw [ht.expand_eq] at h
    cases h
  · rw [hfault.expand_eq] at h
    cases h
    exact hfault

/-! ### What a text expands to -/

theorem expandChars_eq_ok_iff {out : List Char} :
    expandChars env cs = .ok out ↔
      ∃ texts, List.Forall₂ (Stands env) (pieces cs) texts ∧ out = texts.flatten := by
  rw [expandChars, Except.bind_eq_ok_iff]
  constructor
  · rintro ⟨texts, htexts, h⟩
    cases h
    exact ⟨texts, (Except.forall₂_of_mapM_eq_ok htexts).imp fun _ _ => expand_eq_ok_iff.mp, rfl⟩
  · rintro ⟨texts, htexts, rfl⟩
    exact ⟨texts, Except.mapM_eq_ok_of_forall₂ (htexts.imp fun _ _ => Stands.expand_eq), rfl⟩

theorem expandChars_eq_error_iff {fault : SettingsFault} :
    expandChars env cs = .error fault ↔
      ∃ before p after, pieces cs = before ++ p :: after ∧ (∀ q ∈ before, ∃ t, Stands env q t) ∧
        Fails env p fault := by
  have hok (texts : List (List Char)) :
      (Except.ok texts.flatten : Except SettingsFault (List Char)) ≠ .error fault := nofun
  rw [expandChars, Except.bind_eq_error_iff]
  simp only [hok, and_false, exists_false, or_false, Except.mapM_eq_error_iff, expand_eq_ok_iff,
    expand_eq_error_iff]

theorem expandChars_of_pieces {rest : List Char} (h : pieces cs = p :: pieces rest) :
    expandChars env cs = (p.expand env).bind fun t => (expandChars env rest).map (t ++ ·) := by
  rw [expandChars, expandChars, h, List.mapM_cons]
  cases p.expand env with
  | error fault => rfl
  | ok t => cases (pieces rest).mapM (Piece.expand env) <;> rfl

theorem expandChars_plain {c : Char} (bare : ¬ ['$', '{'] <+: c :: cs) :
    expandChars env (c :: cs) = (expandChars env cs).map (c :: ·) :=
  expandChars_of_pieces (pieces_plain bare)

theorem expandChars_expression (first : '}' ∉ e) (cs : List Char) :
    expandChars env ('$' :: '{' :: (e ++ '}' :: cs)) =
      (resolve env e).bind fun value => (expandChars env cs).map (value ++ ·) :=
  expandChars_of_pieces (pieces_expression first cs)

theorem expandChars_unclosed (absent : '}' ∉ e) :
    expandChars env ('$' :: '{' :: e) = .error (.unclosed (String.ofList e)) := by
  rw [expandChars, pieces_unclosed absent]
  rfl

theorem expandChars_eq_self (h : ¬ ['$', '{'] <:+: cs) : expandChars env cs = .ok cs := by
  induction cs with
  | nil => simp [expandChars, pieces]
  | cons c cs ih =>
    rw [List.infix_cons_iff, not_or] at h
    rw [expandChars_plain h.1, ih h.2]
    rfl

/-! ### A single pass -/

/-- Where a pass over the characters stands: what it has put out, and what is open. -/
inductive Pass
  | outside (out : List Char)
  /-- After a dollar sign that may begin an expression. -/
  | dollar (out : List Char)
  | inside (out expression : List Char)

namespace Pass

def step (env : Environment) : Pass → Char → Except SettingsFault Pass
  | outside out, c => .ok (if c = '$' then dollar out else outside (out ++ [c]))
  | dollar out, c =>
    .ok (if c = '{' then inside out []
      else if c = '$' then dollar (out ++ ['$'])
      else outside (out ++ ['$', c]))
  | inside out e, c =>
    if c = '}' then (resolve env e).map fun value => outside (out ++ value)
    else .ok (inside out (e ++ [c]))

def finish : Pass → Except SettingsFault (List Char)
  | outside out => .ok out
  | dollar out => .ok (out ++ ['$'])
  | inside _ e => .error (.unclosed (String.ofList e))

/-- Reads every character once, from the left to the right. -/
def run (env : Environment) (pass : Pass) (cs : List Char) : Except SettingsFault (List Char) :=
  cs.foldlM (step env) pass >>= finish

def out : Pass → List Char
  | outside out => out
  | dollar out => out
  | inside out _ => out

/-- What has been read and not been put out. -/
def pending : Pass → List Char
  | outside _ => []
  | dollar _ => ['$']
  | inside _ e => '$' :: '{' :: e

def Open : Pass → Prop
  | inside _ e => '}' ∉ e
  | _ => True

/-- What a pass comes to: what it has put out, and what the rest expands to. -/
def expected (env : Environment) (pass : Pass) (cs : List Char) :
    Except SettingsFault (List Char) :=
  (expandChars env (pass.pending ++ cs)).map (pass.out ++ ·)

theorem expected_outside_plain (out : List Char) {c : Char} (bare : ¬ ['$', '{'] <+: c :: cs) :
    expected env (outside out) (c :: cs) = expected env (outside (out ++ [c])) cs := by
  simp only [expected, pending, Pass.out, List.nil_append, expandChars_plain bare]
  cases expandChars env cs <;> simp [Except.map]

theorem expected_inside_close (out : List Char) (first : '}' ∉ e) (cs : List Char) :
    expected env (inside out e) ('}' :: cs) =
      (resolve env e).bind fun value => expected env (outside (out ++ value)) cs := by
  simp only [expected, pending, Pass.out, List.nil_append, List.cons_append,
    expandChars_expression first]
  cases resolve env e with
  | error fault => rfl
  | ok value => cases expandChars env cs <;> simp [Except.map, Except.bind]

/-- A character changes neither what the pass comes to nor that no brace is in an open expression. -/
theorem expected_step (env : Environment) (pass : Pass) (isOpen : pass.Open) (c : Char)
    (cs : List Char) :
    (∀ next, step env pass c = .ok next → next.Open) ∧
      expected env pass (c :: cs) = (step env pass c).bind fun next => expected env next cs := by
  cases pass with
  | outside out =>
    by_cases hdollar : c = '$'
    · simp [step, hdollar, Open, Except.bind, expected, pending, Pass.out]
    · have bare : ¬ ['$', '{'] <+: c :: cs := fun h => hdollar (List.cons_prefix_cons.mp h).1.symm
      simp [step, hdollar, Open, Except.bind, expected_outside_plain out bare]
  | dollar out =>
    by_cases hbrace : c = '{'
    · simp [step, hbrace, Open, Except.bind, expected, pending, Pass.out]
    · have bare : ¬ ['$', '{'] <+: '$' :: c :: cs := by
        simpa [List.cons_prefix_cons] using Ne.symm hbrace
      have hsign : expected env (dollar out) (c :: cs) =
          expected env (outside (out ++ ['$'])) (c :: cs) := expected_outside_plain out bare
      rw [hsign]
      by_cases hdollar : c = '$'
      · simp [step, hdollar, Open, Except.bind, expected, pending, Pass.out]
      · have bare' : ¬ ['$', '{'] <+: c :: cs :=
          fun h => hdollar (List.cons_prefix_cons.mp h).1.symm
        simp [step, hbrace, hdollar, Open, Except.bind, expected_outside_plain _ bare']
  | inside out e =>
    by_cases hclose : c = '}'
    · rw [hclose, expected_inside_close out isOpen, step, if_pos rfl]
      cases resolve env e <;> simp [Except.map, Except.bind, Open]
    · have hmore : '}' ∉ e ++ [c] := by simpa [isOpen] using ⟨isOpen, Ne.symm hclose⟩
      simp [step, hclose, Open, Except.bind, expected, pending, Pass.out, hmore]

theorem finish_eq (pass : Pass) (isOpen : pass.Open) : finish pass = expected env pass [] := by
  cases pass with
  | outside out => simp [finish, expected, pending, Pass.out, expandChars_eq_self, Except.map]
  | dollar out =>
    have hsign : expandChars env ['$'] = .ok ['$'] := expandChars_eq_self (by decide)
    simp [finish, expected, pending, Pass.out, hsign, Except.map]
  | inside out e =>
    rw [expected, pending, List.append_nil, expandChars_unclosed isOpen]
    rfl

theorem run_eq (pass : Pass) (isOpen : pass.Open) (cs : List Char) :
    run env pass cs = expected env pass cs := by
  induction cs generalizing pass with
  | nil => exact finish_eq pass isOpen
  | cons c cs ih =>
    obtain ⟨hopen, hstep⟩ := expected_step env pass isOpen c cs
    rw [hstep, run, List.foldlM_cons]
    cases hnext : step env pass c with
    | error fault => rfl
    | ok next => exact ih next (hopen next hnext)

end Pass

theorem expandChars_eq_run (env : Environment) (cs : List Char) :
    expandChars env cs = Pass.run env (.outside []) cs := by
  rw [Pass.run_eq (.outside []) trivial, Pass.expected]
  cases h : expandChars env cs <;> simp [Pass.pending, Pass.out, h, Except.map]

theorem expand_eq_ok {content out : String} :
    expand env content = .ok out ↔ expandChars env content.toList = .ok out.toList := by
  rw [expand, Except.map_eq_ok_iff]
  constructor
  · rintro ⟨cs, hcs, rfl⟩
    rwa [String.toList_ofList]
  · intro h
    exact ⟨_, h, String.ofList_toList⟩

/-- A text splits into characters and expressions in one way. It expands to what its pieces stand
for, values and defaults as they are, or fails for the first piece that stands for nothing. One pass
over its characters gives the same, and a text with no expression is left as it is. -/
theorem expand_one_pass (env : Environment) (content : String) :
    (∃! ps, Splits content.toList ps) ∧
    (∀ ps, Splits content.toList ps →
      (∀ out, expand env content = .ok out ↔
        ∃ texts, List.Forall₂ (Stands env) ps texts ∧ out.toList = texts.flatten) ∧
      (∀ fault, expand env content = .error fault ↔
        ∃ before p after, ps = before ++ p :: after ∧ (∀ q ∈ before, ∃ t, Stands env q t) ∧
          Fails env p fault) ∧
      ((∃ fault, expand env content = .error fault) ↔ ∃ p ∈ ps, ∃ fault, Fails env p fault)) ∧
    expand env content = (Pass.run env (.outside []) content.toList).map String.ofList ∧
    (¬ ['$', '{'] <:+: content.toList → expand env content = .ok content) := by
  refine ⟨⟨_, splits_pieces _, fun ps h => h.eq_pieces⟩, ?_, ?_, ?_⟩
  · rintro ps hsplits
    obtain rfl := hsplits.eq_pieces
    have hok (out : String) : expand env content = .ok out ↔
        ∃ texts, List.Forall₂ (Stands env) (pieces content.toList) texts ∧
          out.toList = texts.flatten := by
      rw [expand_eq_ok, expandChars_eq_ok_iff]
    have herror (fault : SettingsFault) : expand env content = .error fault ↔
        ∃ before p after, pieces content.toList = before ++ p :: after ∧
          (∀ q ∈ before, ∃ t, Stands env q t) ∧ Fails env p fault := by
      rw [expand, Except.map_eq_error_iff, expandChars_eq_error_iff]
    refine ⟨hok, herror, ?_⟩
    constructor
    · rintro ⟨fault, h⟩
      obtain ⟨before, p, after, hps, -, hfails⟩ := (herror fault).mp h
      exact ⟨p, by simp [hps], fault, hfails⟩
    · rintro ⟨p, hp, fault, hfails⟩
      cases hexpand : expand env content with
      | error fault' => exact ⟨fault', rfl⟩
      | ok out =>
        -- every piece would stand for something
        obtain ⟨texts, htexts, -⟩ := (hok out).mp hexpand
        obtain ⟨t, -, hstands⟩ := List.exists_of_forall₂ htexts.flip hp
        exact absurd hfails.expand_eq (by simp [hstands.expand_eq])
  · rw [expand, expandChars_eq_run]
  · intro h
    rw [expand, expandChars_eq_self h]
    exact congrArg Except.ok String.ofList_toList

/-- A dollar sign before an expression, a value that looks like one and a default with a mark. -/
theorem expand_one_pass_nested :
    Splits "$$\x7bA\x7d$\x7bE:-x:-$\x7d\x7d\x7b".toList
        [.plain '$', .expression "A".toList, .expression "E:-x:-$".toList, .plain '}',
          .plain '{'] ∧
      expand [("A", "$\x7bB\x7d"), ("E", "")] "$$\x7bA\x7d$\x7bE:-x:-$\x7d\x7d\x7b" =
        .ok "$$\x7bB\x7dx:-$\x7d\x7b" ∧
      ¬ ['$', '{'] <:+: "$5 \x7b$\x7d".toList ∧
      expand [] "$5 \x7b$\x7d" = .ok "$5 \x7b$\x7d" := by
  have hsplits : Splits "$$\x7bA\x7d$\x7bE:-x:-$\x7d\x7d\x7b".toList
      [.plain '$', .expression "A".toList, .expression "E:-x:-$".toList, .plain '}',
        .plain '{'] := by
    refine .plain (by decide) (.expression (e := ['A']) (by decide) ?_)
    refine .expression (e := ['E', ':', '-', 'x', ':', '-', '$']) (by decide) ?_
    exact .plain (by decide) (.plain (by decide) .nil)
  have hplain : ¬ ['$', '{'] <:+: "$5 \x7b$\x7d".toList := by decide
  refine ⟨hsplits, ?_, hplain, (expand_one_pass [] _).2.2.2 hplain⟩
  refine (((expand_one_pass _ _).2.1 _ hsplits).1 _).mpr
    ⟨[['$'], "$\x7bB\x7d".toList, "x:-$".toList, ['}'], ['{']], ?_, by decide⟩
  refine .cons (.plain _) (.cons ?_ (.cons ?_ (.cons (.plain _) (.cons (.plain _) .nil))))
  · exact .required (by decide) (by decide)
  · exact @Stands.dflt _ ['E'] _ (by decide) (by decide)

end GribCatalog.Expansion
